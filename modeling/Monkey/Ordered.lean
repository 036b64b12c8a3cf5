/-!
# Ordered maps

Maps as lists of pairs that keep the order in which keys were first inserted.  Inserting
a key again keeps its place and replaces its value.
-/

namespace Monkey

/-- Pairs of keys and values in the order of first insertion. -/
abbrev Ordered (κ ν : Type) := List (κ × ν)

namespace Ordered

variable {κ ν : Type} [DecidableEq κ]

/-- The value of a key. -/
def find? (key : κ) : Ordered κ ν → Option ν
  | [] => none
  | (k, v) :: rest => if k = key then some v else find? key rest

/-- The map with a key set to a value. -/
def insert (key : κ) (value : ν) : Ordered κ ν → Ordered κ ν
  | [] => [(key, value)]
  | (k, v) :: rest =>
    if k = key then (key, value) :: rest else (k, v) :: insert key value rest

/-- The keys in order. -/
def keys (m : Ordered κ ν) : List κ := m.map Prod.fst

omit [DecidableEq κ] in
@[simp] theorem keys_nil : keys ([] : Ordered κ ν) = [] := rfl

omit [DecidableEq κ] in
@[simp] theorem keys_cons (p : κ × ν) (m : Ordered κ ν) : keys (p :: m) = p.1 :: keys m := rfl

@[simp] theorem find?_nil (key : κ) : find? key ([] : Ordered κ ν) = none := rfl

theorem find?_cons (key k : κ) (v : ν) (m : Ordered κ ν) :
    find? key ((k, v) :: m) = if k = key then some v else find? key m := rfl

@[simp] theorem find?_insert_self (key : κ) (value : ν) (m : Ordered κ ν) :
    find? key (insert key value m) = some value := by
  induction m with
  | nil => simp [insert, find?]
  | cons p rest ih =>
    by_cases h : p.1 = key
    · simp [insert, find?, h]
    · simp [insert, find?, h, ih]

theorem find?_insert_of_ne {key other : κ} (h : other ≠ key) (value : ν) (m : Ordered κ ν) :
    find? other (insert key value m) = find? other m := by
  induction m with
  | nil => simp [insert, find?, h.symm]
  | cons p rest ih =>
    by_cases hp : p.1 = key
    · simp [insert, find?, hp, h.symm]
    · simp [insert, find?, hp, ih]

theorem find?_eq_none_iff {key : κ} {m : Ordered κ ν} :
    find? key m = none ↔ key ∉ keys m := by
  induction m with
  | nil => simp
  | cons p rest ih =>
    by_cases h : p.1 = key
    · simp [find?, h]
    · simp [find?, h, ih, Ne.symm h]

theorem mem_of_find? {key : κ} {value : ν} {m : Ordered κ ν} (h : find? key m = some value) :
    (key, value) ∈ m := by
  induction m with
  | nil => cases h
  | cons p rest ih =>
    obtain ⟨k, v⟩ := p
    rw [find?_cons] at h
    by_cases hk : k = key
    · rw [if_pos hk] at h
      cases h
      rw [hk]
      exact List.mem_cons_self ..
    · rw [if_neg hk] at h
      exact List.mem_cons_of_mem _ (ih h)

theorem mem_insert {key : κ} {value : ν} {m : Ordered κ ν} {p : κ × ν}
    (h : p ∈ insert key value m) : p = (key, value) ∨ p ∈ m := by
  induction m with
  | nil => exact .inl (List.mem_singleton.mp h)
  | cons q rest ih =>
    obtain ⟨k, v⟩ := q
    rw [insert] at h
    by_cases hk : k = key
    · rw [if_pos hk, List.mem_cons] at h
      exact h.imp_right (List.mem_cons_of_mem _)
    · rw [if_neg hk, List.mem_cons] at h
      obtain rfl | h := h
      · exact .inr (List.mem_cons_self ..)
      · exact (ih h).imp_right (List.mem_cons_of_mem _)

/-- What holds of all pairs and of a new one holds of all pairs once it is set. -/
theorem forall_mem_insert {p : κ × ν → Prop} {key : κ} {value : ν} {m : Ordered κ ν}
    (h : p (key, value)) (hm : ∀ e ∈ m, p e) : ∀ e ∈ insert key value m, p e := by
  intro e he
  rcases mem_insert he with rfl | he
  · exact h
  · exact hm e he

/-- Changing all values alike and setting a key may be done in either order. -/
theorem map_insert {μ : Type} (f : ν → μ) (key : κ) (value : ν) (m : Ordered κ ν) :
    (insert key value m).map (fun p => (p.1, f p.2)) =
      insert key (f value) (m.map fun p => (p.1, f p.2)) := by
  induction m with
  | nil => rfl
  | cons p rest ih =>
    by_cases h : p.1 = key
    · simp [insert, h]
    · simp [insert, h, ih]

/-- A new key goes to the end; a known key leaves the keys as they are. -/
theorem keys_insert (key : κ) (value : ν) (m : Ordered κ ν) :
    keys (insert key value m) = if key ∈ keys m then keys m else keys m ++ [key] := by
  induction m with
  | nil => simp [insert]
  | cons p rest ih =>
    by_cases h : p.1 = key
    · simp [insert, h]
    · by_cases hm : key ∈ keys rest
      · simp [insert, h, ih, hm]
      · simp [insert, h, ih, hm, Ne.symm h]

/-- A new key goes to the end with its value. -/
theorem insert_of_notMem {key : κ} {m : Ordered κ ν} (h : key ∉ keys m) (value : ν) :
    insert key value m = m ++ [(key, value)] := by
  induction m with
  | nil => rfl
  | cons p rest ih =>
    rw [keys_cons, List.mem_cons, not_or] at h
    rw [insert, if_neg (Ne.symm h.1), ih h.2, List.cons_append]

end Ordered

end Monkey
