import Monkey.Machine
import Monkey.Runs

/-!
# Histories

The frames that were made on a heap and the names that were bound on it, in order.  Where every
frame stands inside an earlier one, a name has the value it was given last in the nearest frame
outward that was ever given one for it, and no value if there is no such frame.
-/

namespace Monkey

/-- A change to a heap. -/
inductive Event where
  /-- A frame is made, inside another or inside none. -/
  | made (outer : Option FrameId)
  /-- A name is bound in a frame. -/
  | bound (frame : FrameId) (name : String) (value : Value)

/-- The frame around the one that is made, if one is. -/
def Event.outer? : Event → Option (Option FrameId)
  | made outer => some outer
  | bound .. => none

/-- The value that a name is given in a frame, if it is. -/
def Event.value? (i : FrameId) (x : String) : Event → Option Value
  | made _ => none
  | bound j y v => if j = i ∧ y = x then some v else none

/-- The changes to a heap, the oldest first. -/
abbrev History := List Event

namespace History

/-- The frames around those that were made, in the order of their numbers. -/
def outers (es : History) : List (Option FrameId) := es.filterMap Event.outer?

/-- The values that a name was given in a frame, the oldest first. -/
def values (es : History) (i : FrameId) (x : String) : List Value :=
  es.filterMap (Event.value? i x)

/-- What becomes of a name, looked for from a frame outward: it has the value it was given last
    in the first frame that was ever given one for it. -/
inductive Finds (es : History) (x : String) : FrameId → Option Value → Prop
  | here {i : FrameId} {v : Value} : (es.values i x).getLast? = some v → Finds es x i (some v)
  | outward {i j : FrameId} {r : Option Value} : es.values i x = [] →
      es.outers[i]? = some (some j) → Finds es x j r → Finds es x i r
  | nowhere {i : FrameId} : es.values i x = [] → es.outers[i]? = some none → Finds es x i none

/-- A frame is on the way outward from another. -/
inductive Outward (es : History) : FrameId → FrameId → Prop
  | refl (i : FrameId) : Outward es i i
  | step {i j k : FrameId} : es.outers[i]? = some (some j) → Outward es j k → Outward es i k

variable {es : History} {x : String} {i : FrameId} {r s : Option Value}

theorem Finds.unique (hr : es.Finds x i r) (hs : es.Finds x i s) : r = s := by
  induction hr with
  | here hlast =>
    cases hs with
    | here hlast' => rw [← hlast, ← hlast']
    | outward hnone | nowhere hnone =>
      rw [hnone] at hlast
      cases hlast
  | outward hnone houter _ ih =>
    cases hs with
    | here hlast' =>
      rw [hnone] at hlast'
      cases hlast'
    | outward _ houter' hs =>
      rw [houter] at houter'
      cases houter'
      exact ih hs
    | nowhere _ houter' =>
      rw [houter] at houter'
      cases houter'
  | nowhere hnone houter =>
    cases hs with
    | here hlast' =>
      rw [hnone] at hlast'
      cases hlast'
    | outward _ houter' =>
      rw [houter] at houter'
      cases houter'
    | nowhere => rfl

/-- Nothing is found if no frame on the way outward was ever given a value for the name, and only
    then. -/
theorem Finds.eq_none_iff (hr : es.Finds x i r) :
    r = none ↔ ∀ j, es.Outward i j → es.values j x = [] := by
  induction hr with
  | @here i v hlast =>
    refine ⟨nofun, fun hall => ?_⟩
    rw [hall i (.refl i)] at hlast
    cases hlast
  | @outward i j r hnone houter _ ih =>
    rw [ih]
    refine ⟨fun hall k hk => ?_, fun hall k hk => hall k (.step houter hk)⟩
    cases hk with
    | refl => exact hnone
    | step houter' hk =>
      rw [houter] at houter'
      cases houter'
      exact hall k hk
  | @nowhere i hnone houter =>
    refine ⟨fun _ k hk => ?_, fun _ => rfl⟩
    cases hk with
    | refl => exact hnone
    | step houter' =>
      rw [houter] at houter'
      cases houter'

/-- What is found was given in a frame on the way outward. -/
theorem Finds.exists_mem {v : Value} (hr : es.Finds x i r) (hv : r = some v) :
    ∃ j, es.Outward i j ∧ v ∈ es.values j x := by
  induction hr with
  | @here i w hlast =>
    cases hv
    exact ⟨i, .refl i, List.mem_of_getLast? hlast⟩
  | outward _ houter _ ih =>
    obtain ⟨k, hk, hmem⟩ := ih hv
    exact ⟨k, .step houter hk, hmem⟩
  | nowhere => cases hv

end History

/-! ## Heaps -/

/-- Every frame stands inside an earlier one, or inside none. -/
def Heap.Nested (h : Heap) : Prop :=
  ∀ (i : FrameId) (f : Frame), h.frames[i]? = some f → ∀ j ∈ f.outer, j < i

/-- A heap has come about by what a history tells: its frames are those that were made, and each
    name has in each frame the value it was given last. -/
structure Heap.Records (h : Heap) (es : History) : Prop where
  outers : h.frames.toList.map Frame.outer = es.outers
  find? : ∀ i x, (h.bindings i).find? x = (es.values i x).getLast?

namespace Heap

variable {h : Heap} {es : History}

theorem bindings_create (h : Heap) (outer : Option FrameId) (i : FrameId) :
    (h.create outer).1.bindings i = h.bindings i := by
  unfold bindings create
  rw [Array.getElem?_push]
  by_cases hi : i = h.frames.size
  · rw [if_pos hi, hi, Array.getElem?_eq_none (Nat.le_refl _)]
    rfl
  · rw [if_neg hi]

theorem bindings_bind {i : FrameId} (hi : i < h.frames.size) (x : String) (v : Value)
    (j : FrameId) : (h.bind i x v).bindings j =
      if i = j then (h.bindings j).insert x v else h.bindings j := by
  unfold bindings bind
  rw [Array.getElem?_modify]
  by_cases hij : i = j
  · rw [if_pos hij, if_pos hij, ← hij, Array.getElem?_eq_getElem hi]
    rfl
  · rw [if_neg hij, if_neg hij]

theorem nested_empty : empty.Nested := by
  intro i f hf
  simp [empty] at hf

theorem Nested.create (hn : h.Nested) {outer : Option FrameId}
    (houter : ∀ j ∈ outer, j < h.frames.size) : (h.create outer).1.Nested := by
  intro i f hf
  rw [Heap.create, Array.getElem?_push] at hf
  by_cases hi : i = h.frames.size
  · rw [if_pos hi] at hf
    cases hf
    exact hi ▸ houter
  · rw [if_neg hi] at hf
    exact hn i f hf

theorem Nested.bind (hn : h.Nested) (i : FrameId) (x : String) (v : Value) :
    (h.bind i x v).Nested := by
  intro j f hf
  rw [Heap.bind, Array.getElem?_modify] at hf
  by_cases hij : i = j
  · rw [if_pos hij] at hf
    obtain ⟨g, hg, rfl⟩ := Option.map_eq_some_iff.mp hf
    exact hn j g hg
  · rw [if_neg hij] at hf
    exact hn j f hf

namespace Records

theorem empty : Heap.empty.Records [] :=
  ⟨rfl, fun _ _ => rfl⟩

/-- Frames are made in the order of their numbers. -/
theorem getElem?_outers (hr : h.Records es) (i : FrameId) :
    es.outers[i]? = h.frames[i]?.map Frame.outer := by
  rw [← hr.outers, List.getElem?_map, Array.getElem?_toList]

theorem create (hr : h.Records es) (outer : Option FrameId) :
    (h.create outer).1.Records (es ++ [.made outer]) := by
  refine ⟨?_, fun i x => ?_⟩
  · unfold Heap.create History.outers
    rw [Array.toList_push, List.map_append, hr.outers, List.filterMap_append]
    rfl
  · unfold History.values
    rw [bindings_create, hr.find?, List.filterMap_append]
    exact congrArg List.getLast? (List.append_nil _).symm

theorem bind (hr : h.Records es) {i : FrameId} (hi : i < h.frames.size) (x : String) (v : Value) :
    (h.bind i x v).Records (es ++ [.bound i x v]) := by
  refine ⟨?_, fun j y => ?_⟩
  · have hframes : (h.bind i x v).frames.toList.map Frame.outer =
        h.frames.toList.map Frame.outer := by
      apply List.ext_getElem?
      intro j
      rw [List.getElem?_map, List.getElem?_map, Array.getElem?_toList, Array.getElem?_toList,
        Heap.bind, Array.getElem?_modify]
      split
      · rw [Option.map_map]
        rfl
      · rfl
    unfold History.outers
    rw [hframes, hr.outers, List.filterMap_append]
    exact (List.append_nil _).symm
  · have hvalues : (es ++ [Event.bound i x v]).filterMap (Event.value? j y) =
        es.values j y ++ (if i = j ∧ x = y then [v] else []) := by
      rw [List.filterMap_append]
      by_cases hij : i = j ∧ x = y <;> simp [History.values, Event.value?, hij]
    show _ = List.getLast? (List.filterMap _ _)
    rw [hvalues, bindings_bind hi]
    by_cases hij : i = j
    · by_cases hxy : x = y
      · rw [if_pos hij, if_pos ⟨hij, hxy⟩, hxy, Ordered.find?_insert_self, List.getLast?_concat]
      · rw [if_pos hij, if_neg fun h => hxy h.2, Ordered.find?_insert_of_ne (Ne.symm hxy),
          List.append_nil, hr.find?]
    · rw [if_neg hij, if_neg fun h => hij h.1, List.append_nil, hr.find?]

/-- With enough steps, a name is looked up as the history tells. -/
theorem lookupWithin (hr : h.Records es) (hn : h.Nested) (x : String) {steps : Nat} {i : FrameId}
    (hi : i < h.frames.size) (hsteps : i < steps) :
    es.Finds x i (h.lookupWithin x steps i) := by
  induction steps generalizing i with
  | zero => exact absurd hsteps (Nat.not_lt_zero i)
  | succ steps ih =>
    obtain ⟨f, hf⟩ : ∃ f, h.frames[i]? = some f := ⟨_, Array.getElem?_eq_getElem hi⟩
    have hlast : f.bindings.find? x = (es.values i x).getLast? := by
      rw [← hr.find?, Heap.bindings, hf]
      rfl
    have houter : es.outers[i]? = some f.outer := by rw [hr.getElem?_outers, hf, Option.map_some]
    rw [Heap.lookupWithin, hf]
    simp only
    cases hfind : f.bindings.find? x with
    | some v => exact .here (hlast.symm.trans hfind)
    | none =>
      have hnone := List.getLast?_eq_none_iff.mp (hlast.symm.trans hfind)
      cases ho : f.outer with
      | none => exact .nowhere hnone (ho ▸ houter)
      | some j =>
        -- The frame around has a smaller number, so there are steps left for it.
        have hji := hn i f hf j ho
        refine .outward hnone (ho ▸ houter) (ih (Nat.lt_trans hji hi) ?_)
        exact Nat.lt_of_lt_of_le hji (Nat.le_of_lt_succ hsteps)

/-- A name is looked up as the history tells. -/
theorem lookup_eq_iff (hr : h.Records es) (hn : h.Nested) {i : FrameId} (hi : i < h.frames.size)
    (x : String) (r : Option Value) : h.lookup x i = r ↔ es.Finds x i r := by
  have hfinds : es.Finds x i (h.lookup x i) := hr.lookupWithin hn x hi (Nat.lt_succ_self i)
  exact ⟨fun heq => heq ▸ hfinds, hfinds.unique⟩

end Records

end Heap

/-! ## Runs -/

/-- The machine that a run leaves, with a result or without. -/
def Run.leaves {α : Type} (x : Run α) (m : Machine) : Machine :=
  match x m with
  | .ok _ m' | .error _ m' => m'

namespace Run

variable {α β : Type} {x : Run α} {m m' : Machine}

theorem leaves_of_ok {a : α} (h : x m = .ok a m') : Run.leaves x m = m' := by
  unfold leaves
  rw [h]

theorem leaves_bind_ok {a : α} (h : x m = .ok a m') (f : α → Run β) :
    Run.leaves (x >>= f) m = Run.leaves (f a) m' := by
  unfold leaves
  rw [bind_run_ok h]

theorem leaves_bind_error {reason : Stop} (h : x m = .error reason m') (f : α → Run β) :
    Run.leaves (x >>= f) m = Run.leaves x m := by
  unfold leaves
  rw [bind_run_error h, h]

end Run

/-- A run that leaves the heap as it is. -/
class HeapFixed {α : Type} (x : Run α) : Prop where
  heap_eq (m : Machine) : (Run.leaves x m).heap = m.heap

namespace HeapFixed

variable {α : Type}

instance (a : α) : HeapFixed (pure a : Run α) := ⟨fun _ => rfl⟩

instance (reason : Stop) : HeapFixed (throw reason : Run α) := ⟨fun _ => rfl⟩

instance : HeapFixed Machine.newObject := ⟨fun _ => rfl⟩

instance (line : OutputLine) : HeapFixed (Machine.write line) := ⟨fun _ => rfl⟩

instance (i : FrameId) (name : String) : HeapFixed (Machine.lookup i name) := ⟨fun _ => rfl⟩

end HeapFixed

/-- What a run does to the heap of a machine: the frames it makes and the names it binds, step by
    step. -/
inductive Performs : {α : Type} → Run α → Machine → History → Prop
  | still {α : Type} (x : Run α) [HeapFixed x] (m : Machine) : Performs x m []
  | createFrame (outer : Option FrameId) (m : Machine) :
      Performs (Machine.createFrame outer) m [.made outer]
  | bind {i : FrameId} {m : Machine} (x : String) (v : Value) : i < m.heap.frames.size →
      Performs (Machine.bind i x v) m [.bound i x v]
  | andThen {α β : Type} {x : Run α} {f : α → Run β} {m m' : Machine} {a : α} {es es' : History} :
      x m = .ok a m' → Performs x m es → Performs (f a) m' es' → Performs (x >>= f) m (es ++ es')
  | stopped {α β : Type} {x : Run α} {m m' : Machine} {reason : Stop} {es : History}
      (f : α → Run β) : x m = .error reason m' → Performs x m es → Performs (x >>= f) m es

/-- A run leaves a heap that has come about by what had been done before and what the run does. -/
theorem Performs.records {α : Type} {x : Run α} {m : Machine} {es past : History}
    (hx : Performs x m es) (hr : m.heap.Records past) :
    (Run.leaves x m).heap.Records (past ++ es) := by
  induction hx generalizing past with
  | still x m =>
    rw [HeapFixed.heap_eq, List.append_nil]
    exact hr
  | createFrame outer m => exact hr.create outer
  | bind x v hi => exact hr.bind hi x v
  | @andThen _ _ x f m m' a es es' hok _ _ ih ih' =>
    rw [Run.leaves_bind_ok hok, ← List.append_assoc]
    exact ih' (Run.leaves_of_ok hok ▸ ih hr)
  | stopped f herror _ ih =>
    rw [Run.leaves_bind_error herror]
    exact ih hr

end Monkey
