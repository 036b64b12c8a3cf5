import Monkey.Heap

/-!
# Conditions on values and what they hold

A condition everywhere in a value: on the value itself, and on the elements, keys, entries
and payloads within it.  A heap meets a condition if all bound values do.
-/

namespace Monkey

namespace Value

/-- Whether a value holds no other values. -/
def isPlain : Value → Bool
  | array .. | hash .. | returned .. => false
  | _ => true

/-- Whether a value is a function of the program. -/
def isFunction : Value → Bool
  | function .. => true
  | _ => false

/-- A condition holds of a value and of everything within it. -/
inductive Everywhere (p : Value → Prop) : Value → Prop
  | array {id : ObjectId} {vs : List Value} : p (.array id vs) →
      (∀ v ∈ vs, Everywhere p v) → Everywhere p (.array id vs)
  | hash {id : ObjectId} {es : List (HashKey × (Value × Value))} : p (.hash id es) →
      (∀ e ∈ es, Everywhere p e.2.1) → (∀ e ∈ es, Everywhere p e.2.2) →
      Everywhere p (.hash id es)
  | returned {id : ObjectId} {v : Value} : p (.returned id v) → Everywhere p v →
      Everywhere p (.returned id v)
  | plain {v : Value} : v.isPlain → p v → Everywhere p v

/-- A condition that no array, no hash and no plain value of a literal or builtin fails. -/
structure Admits (p : Value → Prop) : Prop where
  integer : ∀ n, p (.integer n)
  boolean : ∀ b, p (.boolean b)
  string : ∀ s, p (.string s)
  null : p .null
  array : ∀ id vs, p (.array id vs)
  hash : ∀ id es, p (.hash id es)
  builtin : ∀ b, p (.builtin b)

namespace Everywhere

variable {p : Value → Prop}

theorem here {v : Value} (h : v.Everywhere p) : p v := by
  cases h with
  | array h | hash h | returned h | plain _ h => exact h

theorem elements {id : ObjectId} {vs : List Value} (h : (Value.array id vs).Everywhere p) :
    ∀ v ∈ vs, v.Everywhere p := by
  cases h with
  | array _ h => exact h
  | plain h => cases h

theorem keys {id : ObjectId} {es : List (HashKey × (Value × Value))}
    (h : (Value.hash id es).Everywhere p) : ∀ e ∈ es, e.2.1.Everywhere p := by
  cases h with
  | hash _ h _ => exact h
  | plain h => cases h

theorem entries {id : ObjectId} {es : List (HashKey × (Value × Value))}
    (h : (Value.hash id es).Everywhere p) : ∀ e ∈ es, e.2.2.Everywhere p := by
  cases h with
  | hash _ _ h => exact h
  | plain h => cases h

/-- A condition everywhere in a hash holds of the value of a key. -/
theorem valueOfKey {id : ObjectId} {es : List (HashKey × (Value × Value))}
    (h : (Value.hash id es).Everywhere p) (key : HashKey) :
    ∀ v ∈ (Ordered.find? key es).map Prod.snd, v.Everywhere p := by
  intro v hv
  obtain ⟨e, he, rfl⟩ := Option.map_eq_some_iff.mp hv
  exact h.entries _ (Ordered.mem_of_find? he)

theorem payload {id : ObjectId} {v : Value} (h : (Value.returned id v).Everywhere p) :
    v.Everywhere p := by
  cases h with
  | returned _ h => exact h
  | plain h => cases h

theorem mono {q : Value → Prop} (hpq : ∀ v, p v → q v) {v : Value} (h : v.Everywhere p) :
    v.Everywhere q := by
  induction h with
  | array h _ ih => exact .array (hpq _ h) ih
  | hash h _ _ ihkeys ihvalues => exact .hash (hpq _ h) ihkeys ihvalues
  | returned h _ ih => exact .returned (hpq _ h) ih
  | plain hplain h => exact .plain hplain (hpq _ h)

mutual

/-- A condition that all values meet is met everywhere. -/
theorem of_forall (h : ∀ v, p v) : (v : Value) → v.Everywhere p
  | .array _ vs => .array (h _) (all_of_forall h vs)
  | .hash _ es =>
    have hall := entries_of_forall h es
    .hash (h _) (fun e he => (hall e he).1) fun e he => (hall e he).2
  | .returned _ v => .returned (h _) (of_forall h v)
  | .integer _ | .boolean _ | .string _ | .null | .function .. | .builtin _ | .error ..
  | .tagged .. | .absent => .plain rfl (h _)

theorem all_of_forall (h : ∀ v, p v) : (vs : List Value) → ∀ v ∈ vs, v.Everywhere p
  | [] => List.forall_mem_nil _
  | v :: vs => List.forall_mem_cons.mpr ⟨of_forall h v, all_of_forall h vs⟩

theorem entries_of_forall (h : ∀ v, p v) : (es : List (HashKey × (Value × Value))) →
    ∀ e ∈ es, e.2.1.Everywhere p ∧ e.2.2.Everywhere p
  | [] => List.forall_mem_nil _
  | (_, (key, value)) :: es =>
    List.forall_mem_cons.mpr ⟨⟨of_forall h key, of_forall h value⟩, entries_of_forall h es⟩

end

end Everywhere

end Value

/-- A condition holds everywhere in the keys and values of entries. -/
structure EntriesHold (p : Value → Prop) (entries : Ordered HashKey (Value × Value)) : Prop where
  keys : ∀ e ∈ entries, e.2.1.Everywhere p
  values : ∀ e ∈ entries, e.2.2.Everywhere p

theorem entriesHold_nil {p : Value → Prop} : EntriesHold p [] :=
  ⟨List.forall_mem_nil _, List.forall_mem_nil _⟩

theorem EntriesHold.insert {p : Value → Prop} {entries : Ordered HashKey (Value × Value)}
    (h : EntriesHold p entries) (k : HashKey) {key value : Value} (hkey : key.Everywhere p)
    (hvalue : value.Everywhere p) : EntriesHold p (entries.insert k (key, value)) where
  keys := Ordered.forall_mem_insert hkey h.keys
  values := Ordered.forall_mem_insert hvalue h.values

/-- A condition holds everywhere in all values that are bound in a heap. -/
def Heap.Everywhere (p : Value → Prop) (h : Heap) : Prop :=
  ∀ (i : FrameId) (f : Frame), h.frames[i]? = some f → ∀ b ∈ f.bindings, b.2.Everywhere p

namespace Heap

variable {p : Value → Prop} {h : Heap}

theorem everywhere_empty : empty.Everywhere p := by
  intro i f hf
  simp [empty] at hf

theorem Everywhere.mono {q : Value → Prop} (hpq : ∀ v, p v → q v) (hh : h.Everywhere p) :
    h.Everywhere q :=
  fun i f hf b hb => (hh i f hf b hb).mono hpq

theorem Everywhere.create (hh : h.Everywhere p) (outer : Option FrameId) :
    (h.create outer).1.Everywhere p := by
  intro i f hf b hb
  rw [Heap.create, Array.getElem?_push] at hf
  split at hf
  · cases hf
    cases hb
  · exact hh i f hf b hb

theorem Everywhere.bind (hh : h.Everywhere p) {i : FrameId} {name : String} {v : Value}
    (hv : v.Everywhere p) : (h.bind i name v).Everywhere p := by
  intro j f hf b hb
  rw [Heap.bind, Array.getElem?_modify] at hf
  split at hf
  · obtain ⟨g, hg, rfl⟩ := Option.map_eq_some_iff.mp hf
    exact Ordered.forall_mem_insert hv (hh j g hg) b hb
  · exact hh j f hf b hb

theorem Everywhere.lookupWithin (hh : h.Everywhere p) {name : String} {v : Value} {steps : Nat}
    {i : FrameId} (hv : h.lookupWithin name steps i = some v) : v.Everywhere p := by
  induction steps generalizing i with
  | zero => cases hv
  | succ steps ih =>
    rw [Heap.lookupWithin] at hv
    cases hf : h.frames[i]? with
    | none =>
      rw [hf] at hv
      cases hv
    | some f =>
      rw [hf] at hv
      cases hfind : f.bindings.find? name with
      | some w =>
        simp only [hfind] at hv
        cases hv
        exact hh i f hf _ (Ordered.mem_of_find? hfind)
      | none =>
        simp only [hfind] at hv
        cases hout : f.outer with
        | none =>
          simp only [hout] at hv
          cases hv
        | some j =>
          simp only [hout] at hv
          exact ih hv

theorem Everywhere.lookup (hh : h.Everywhere p) {name : String} {v : Value} {i : FrameId}
    (hv : h.lookup name i = some v) : v.Everywhere p :=
  hh.lookupWithin hv

end Heap

end Monkey
