import Monkey.Machine
import Monkey.Proofs.Value.Kinship

/-!
# Machines that are the same but for numbers

The numbers of objects and frames say only which are the same and which are not.  A pairing says
which objects and frames of one machine are which of another.  Under it, values are the same if
they are built alike, and machines if the frames that are paired hold the same.  Names that do
not count may be bound on one side only.
-/

namespace Monkey

/-! ## Ordered maps -/

namespace Ordered

variable {κ ν : Type} [DecidableEq κ]

/-- The part of a map with the keys that count. -/
def only (counts : κ → Bool) (m : Ordered κ ν) : Ordered κ ν :=
  m.filter fun p => counts p.1

theorem find?_only {counts : κ → Bool} {key : κ} (h : counts key) (m : Ordered κ ν) :
    find? key (only counts m) = find? key m := by
  induction m with
  | nil => rfl
  | cons p rest ih =>
    obtain ⟨k, v⟩ := p
    unfold only at ih ⊢
    by_cases hk : counts k
    · rw [List.filter_cons_of_pos (p := fun p : κ × ν => counts p.1) hk, find?_cons, find?_cons,
        ih]
    · have hne : k ≠ key := fun heq => hk (heq ▸ h)
      rw [List.filter_cons_of_neg (p := fun p : κ × ν => counts p.1) hk, find?_cons, if_neg hne,
        ih]

theorem only_insert (counts : κ → Bool) (key : κ) (value : ν) (m : Ordered κ ν) :
    only counts (insert key value m) =
      if counts key then insert key value (only counts m) else only counts m := by
  induction m with
  | nil => by_cases hkey : counts key <;> simp [only, insert, hkey]
  | cons p rest ih =>
    obtain ⟨k, v⟩ := p
    by_cases hk : k = key
    · subst hk
      by_cases hkey : counts k <;> simp [only, insert, hkey]
    · unfold only at ih ⊢
      by_cases hcounts : counts k <;> by_cases hkey : counts key <;>
        simp_all [insert]

end Ordered

/-! ## Pairings -/

/-- Which objects and which frames of one machine are which of another, and which names count.
    None is two of the other machine. -/
structure Pairing where
  objects : ObjectId → ObjectId → Prop
  frames : FrameId → FrameId → Prop
  counts : String → Bool
  objects_iff : ∀ {i i' j j'}, objects i j → objects i' j' → (i = i' ↔ j = j')
  frames_iff : ∀ {i i' j j'}, frames i j → frames i' j' → (i = i' ↔ j = j')

/-- Frames are paired, and their numbers on the first machine are below a bound. -/
def Pairing.FramesBelow (π : Pairing) (bound i j : FrameId) : Prop := π.frames i j ∧ i < bound

theorem Pairing.FramesBelow.mono {π : Pairing} {bound bound' i j : FrameId}
    (h : π.FramesBelow bound i j) (hle : bound ≤ bound') : π.FramesBelow bound' i j :=
  ⟨h.1, Nat.lt_of_lt_of_le h.2 hle⟩

/-- The pairs of a relation below two bounds, and from there on everything in its order. -/
inductive Onward (related : Nat → Nat → Prop) (n n' : Nat) : Nat → Nat → Prop
  | old {i j : Nat} : related i j → i < n → j < n' → Onward related n n' i j
  | new (k : Nat) : Onward related n n' (n + k) (n' + k)

theorem Onward.iff {related : Nat → Nat → Prop} {n n' i i' j j' : Nat}
    (h : ∀ {i i' j j'}, related i j → related i' j' → (i = i' ↔ j = j'))
    (hij : Onward related n n' i j) (hij' : Onward related n n' i' j') : i = i' ↔ j = j' := by
  cases hij with
  | old hij hi hj =>
    cases hij' with
    | old hij' => exact h hij hij'
    | new k => omega
  | new k => cases hij' <;> omega

/-- The pairing under which what two machines make from now on is paired in its order. -/
def Pairing.onward (π : Pairing) (m m' : Machine) : Pairing where
  objects := Onward π.objects m.nextObject m'.nextObject
  frames := Onward π.frames m.heap.frames.size m'.heap.frames.size
  counts := π.counts
  objects_iff := Onward.iff π.objects_iff
  frames_iff := Onward.iff π.frames_iff

/-- All names of some count under a pairing. -/
def Pairing.Covers (π : Pairing) (names : List String) : Prop := ∀ x ∈ names, π.counts x

/-- The kinship of two machines under a pairing: functions are closed over frames below a bound, and
    only names that count occur in their bodies. -/
def Pairing.kinship (π : Pairing) (bound : FrameId) : Kinship :=
  Likeness.same.kinship (fun x => π.counts x) π.objects (π.FramesBelow bound) π.objects_iff

theorem Pairing.kinship_grows (π : Pairing) {bound bound' : FrameId} (hle : bound ≤ bound') :
    (π.kinship bound).Grows (π.kinship bound') :=
  ⟨id, fun h => h.mono hle, id⟩

/-- Values are the same under a pairing.  The functions in them are closed over frames below a
    bound, and only names that count occur in their bodies. -/
abbrev Value.Paired (π : Pairing) (bound : FrameId) : Value → Value → Prop :=
  Value.Related (π.kinship bound)

namespace Value

/-! ## Values -/

mutual

/-- A value without the numbers of the objects and frames in it. -/
def anonymous : Value → Value
  | array _ elements => array 0 (anonymousAll elements)
  | hash _ entries => hash 0 (anonymousEntries entries)
  | function _ parameters body _ => function 0 parameters body 0
  | returned _ payload => returned 0 (anonymous payload)
  | error _ message => error 0 message
  | tagged _ tag => tagged 0 tag
  | v => v

/-- Several values without numbers. -/
def anonymousAll : List Value → List Value
  | [] => []
  | v :: rest => anonymous v :: anonymousAll rest

/-- The entries of a hash without numbers. -/
def anonymousEntries : List (HashKey × (Value × Value)) → List (HashKey × (Value × Value))
  | [] => []
  | (k, (key, value)) :: rest => (k, (anonymous key, anonymous value)) :: anonymousEntries rest

end

namespace Paired

variable {π : Pairing} {bound bound' : FrameId} {v v' w w' : Value}

mutual

/-- Values that are the same are the same without numbers. -/
theorem anonymous_eq : (v w : Value) → Value.Paired π bound v w → v.anonymous = w.anonymous
  | .array _ vs, _, h => by
    cases h with
    | array _ hvs => rw [anonymous, anonymous, anonymousAll_eq vs _ hvs]
  | .hash _ es, _, h => by
    cases h with
    | hash _ hes => rw [anonymous, anonymous, anonymousEntries_eq es _ hes]
  | .returned _ v, _, h => by
    cases h with
    | returned _ hv => rw [anonymous, anonymous, anonymous_eq v _ hv]
  | .function .., _, h => by
    cases h with
    | function _ _ hcode =>
      obtain ⟨rfl, rfl⟩ := Likeness.eq_of_code_same hcode
      rfl
  | .integer _, _, h | .boolean _, _, h | .string _, _, h | .null, _, h | .builtin _, _, h
  | .error .., _, h | .tagged .., _, h | .absent, _, h => by cases h; rfl

theorem anonymousAll_eq : (vs ws : List Value) → List.Forall₂ (Value.Paired π bound) vs ws →
    anonymousAll vs = anonymousAll ws
  | [], _, h => by cases h; rfl
  | v :: vs, _, h => by
    cases h with
    | cons hv hvs =>
      rw [anonymousAll, anonymousAll, anonymous_eq v _ hv, anonymousAll_eq vs _ hvs]

theorem anonymousEntries_eq : (es fs : List (HashKey × (Value × Value))) →
    Ordered.Rel (RelatedTwice (π.kinship bound)) es fs →
      anonymousEntries es = anonymousEntries fs
  | [], _, h => by cases h; rfl
  | (_, (key, value)) :: es, _, h => by
    cases h with
    | cons _ hpair hes =>
      cases hpair with
      | mk hkey hvalue =>
        rw [anonymousEntries, anonymousEntries, anonymous_eq key _ hkey,
          anonymous_eq value _ hvalue, anonymousEntries_eq es _ hes]

end

theorem mono (h : Value.Paired π bound v w) (hle : bound ≤ bound') : Value.Paired π bound' v w :=
  Related.mono h (π.kinship_grows hle)

end Paired

end Value

/-! ## Frames and machines -/

/-- Two frames stand inside frames that are paired, of smaller numbers, or inside none. -/
inductive Pairing.Outer (π : Pairing) (i j : FrameId) : Option FrameId → Option FrameId → Prop
  | none : Pairing.Outer π i j none none
  | some {o p : FrameId} : π.frames o p → o < i → p < j → Pairing.Outer π i j (some o) (some p)

/-- The frames of two numbers are the same: what counts is bound in them in the same order to
    values that are the same. -/
structure Frame.Paired (π : Pairing) (bound i j : FrameId) (f g : Frame) : Prop where
  outer : π.Outer i j f.outer g.outer
  bindings : Ordered.Rel (Value.Paired π bound) (Ordered.only π.counts f.bindings)
    (Ordered.only π.counts g.bindings)

/-- The frames of two heaps that are paired are the same.  The frames that are made next will be
    paired with one another. -/
structure Heap.Paired (π : Pairing) (h h' : Heap) : Prop where
  frame : ∀ {i j}, π.FramesBelow h.frames.size i j → ∃ f g, h.frames[i]? = some f ∧
    h'.frames[j]? = some g ∧ f.Paired π h.frames.size i j g
  next : ∀ k, π.frames (h.frames.size + k) (h'.frames.size + k)

/-- Two machines are the same: their heaps are, the objects that are made next will be paired with
    one another, and the same has been written. -/
structure Machine.Paired (π : Pairing) (m m' : Machine) : Prop where
  heap : m.heap.Paired π m'.heap
  next : ∀ k, π.objects (m.nextObject + k) (m'.nextObject + k)
  output : m.output = m'.output

namespace Frame.Paired

variable {π : Pairing} {bound bound' i j : FrameId} {f g : Frame}

theorem mono (h : f.Paired π bound i j g) (hle : bound ≤ bound') : f.Paired π bound' i j g :=
  ⟨h.outer, h.bindings.mono fun _ _ hv => hv.mono hle⟩

/-- Names that are bound in both stay the same if their values are. -/
theorem insert (h : f.Paired π bound i j g) (x : String) {v w : Value}
    (hv : Value.Paired π bound v w) :
    Frame.Paired π bound i j { f with bindings := f.bindings.insert x v }
      { g with bindings := g.bindings.insert x w } := by
  refine ⟨h.outer, ?_⟩
  rw [Ordered.only_insert, Ordered.only_insert]
  by_cases hx : π.counts x
  · rw [if_pos hx, if_pos hx]
    exact h.bindings.insert x hv
  · rw [if_neg hx, if_neg hx]
    exact h.bindings

theorem find? (h : f.Paired π bound i j g) {x : String} (hx : π.counts x) :
    Option.Rel (Value.Paired π bound) (f.bindings.find? x) (g.bindings.find? x) := by
  have hrel := h.bindings.find? x
  rwa [Ordered.find?_only hx, Ordered.find?_only hx] at hrel

end Frame.Paired

namespace Heap.Paired

variable {π : Pairing} {h h' : Heap} {i j : FrameId}

/-- Frames that are paired are there on both sides or on neither. -/
theorem lt_iff (hp : h.Paired π h') (hij : π.frames i j) :
    i < h.frames.size ↔ j < h'.frames.size := by
  constructor
  · intro hi
    obtain ⟨f, g, -, hg, -⟩ := hp.frame ⟨hij, hi⟩
    exact (Array.getElem?_eq_some_iff.mp hg).1
  · intro hj
    by_contra hi
    obtain ⟨k, rfl⟩ := Nat.exists_eq_add_of_le (Nat.le_of_not_lt hi)
    have hsame := (π.frames_iff hij (hp.next k)).mp rfl
    exact absurd hj (Nat.not_lt.mpr (hsame ▸ Nat.le_add_right ..))

/-- Frames made inside frames that are paired, or inside none, are the same. -/
theorem create (hp : h.Paired π h') {outer outer' : Option FrameId}
    (houter : π.Outer h.frames.size h'.frames.size outer outer') :
    (h.create outer).1.Paired π (h'.create outer').1 := by
  have hsize : (h.frames.push ⟨[], outer⟩).size = h.frames.size + 1 := Array.size_push ..
  have hsize' : (h'.frames.push ⟨[], outer'⟩).size = h'.frames.size + 1 := Array.size_push ..
  constructor
  · -- What is paired with the new frame is the new frame, since the pairing is one to one.
    rintro i j ⟨hij, hi⟩
    have hiff : i = h.frames.size ↔ j = h'.frames.size := π.frames_iff hij (hp.next 0)
    unfold Heap.create
    simp only [Array.getElem?_push, hsize]
    by_cases hnew : i = h.frames.size
    · rw [if_pos hnew, if_pos (hiff.mp hnew)]
      refine ⟨_, _, rfl, rfl, ?_, .nil⟩
      rw [hnew, hiff.mp hnew]
      exact houter
    · rw [if_neg hnew, if_neg (mt hiff.mpr hnew)]
      have hle : i < h.frames.size + 1 := hsize ▸ hi
      have hlt := Nat.lt_of_le_of_ne (Nat.le_of_lt_succ hle) hnew
      obtain ⟨f, g, hf, hg, hfg⟩ := hp.frame ⟨hij, hlt⟩
      exact ⟨f, g, hf, hg, hfg.mono (Nat.le_succ _)⟩
  · intro k
    unfold Heap.create
    rw [hsize, hsize', Nat.succ_add_eq_add_succ, Nat.succ_add_eq_add_succ]
    exact hp.next (k + 1)

/-- Heaps stay the same when the same is bound in frames that are paired. -/
theorem bind (hp : h.Paired π h') (hij : π.frames i j) (x : String) {v w : Value}
    (hv : Value.Paired π h.frames.size v w) : (h.bind i x v).Paired π (h'.bind j x w) := by
  constructor
  · intro i' j' hij'
    have hiff := π.frames_iff hij hij'.1
    unfold Heap.bind at hij' ⊢
    rw [Array.size_modify] at hij' ⊢
    rw [Array.getElem?_modify, Array.getElem?_modify]
    obtain ⟨f, g, hf, hg, hfg⟩ := hp.frame hij'
    by_cases hown : i = i'
    · rw [if_pos hown, if_pos (hiff.mp hown), hf, hg]
      exact ⟨_, _, rfl, rfl, hfg.insert x hv⟩
    · rw [if_neg hown, if_neg (mt hiff.mpr hown)]
      exact ⟨f, g, hf, hg, hfg⟩
  · intro k
    unfold Heap.bind
    rw [Array.size_modify, Array.size_modify]
    exact hp.next k

/-- What counts is found alike from frames that are paired. -/
theorem lookupWithin (hp : h.Paired π h') {x : String} (hx : π.counts x) {steps steps' : Nat}
    (hij : π.FramesBelow h.frames.size i j) (hsteps : i < steps) (hsteps' : j < steps') :
    Option.Rel (Value.Paired π h.frames.size) (h.lookupWithin x steps i)
      (h'.lookupWithin x steps' j) := by
  -- The frames around have smaller numbers on both sides, so neither side runs out of steps.
  induction steps generalizing i j steps' with
  | zero => exact absurd hsteps (Nat.not_lt_zero i)
  | succ steps ih =>
    cases steps' with
    | zero => exact absurd hsteps' (Nat.not_lt_zero j)
    | succ steps' =>
      obtain ⟨f, g, hf, hg, hfg⟩ := hp.frame hij
      rw [Heap.lookupWithin, Heap.lookupWithin, hf, hg]
      have hfind := hfg.find? hx
      have houter := hfg.outer
      simp only
      generalize f.bindings.find? x = v?, g.bindings.find? x = w? at hfind
      generalize f.outer = o?, g.outer = p? at houter
      cases hfind with
      | some hv => exact .some hv
      | none =>
        cases houter with
        | none => exact .none
        | some hop ho hp =>
          exact ih ⟨hop, Nat.lt_trans ho hij.2⟩ (Nat.lt_of_lt_of_le ho (Nat.le_of_lt_succ hsteps))
            (Nat.lt_of_lt_of_le hp (Nat.le_of_lt_succ hsteps'))

theorem bindings (hp : h.Paired π h') (hij : π.FramesBelow h.frames.size i j) :
    Ordered.Rel (Value.Paired π h.frames.size) (Ordered.only π.counts (h.bindings i))
      (Ordered.only π.counts (h'.bindings j)) := by
  obtain ⟨f, g, hf, hg, hfg⟩ := hp.frame hij
  unfold Heap.bindings
  rw [hf, hg]
  exact hfg.bindings

theorem lookup (hp : h.Paired π h') {x : String} (hx : π.counts x)
    (hij : π.FramesBelow h.frames.size i j) :
    Option.Rel (Value.Paired π h.frames.size) (h.lookup x i) (h'.lookup x j) :=
  hp.lookupWithin hx hij (Nat.lt_succ_self i) (Nat.lt_succ_self j)

end Heap.Paired

end Monkey
