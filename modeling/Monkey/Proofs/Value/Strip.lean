import Monkey.Heap
import Monkey.Proofs.Node.Alike
import Monkey.Value.Inspect

/-!
# Values without tokens

A function value keeps the tokens of its parameters and its body.  Nothing that programs can
tell about a value depends on them.
-/

namespace Monkey

namespace Value

mutual

/-- A value without the tokens of the functions in it. -/
def strip : Value → Value
  | array id elements => array id (stripAll elements)
  | hash id entries => hash id (stripEntries entries)
  | function id parameters body frame =>
    function id (parameters.map Name.bare) body.strip frame
  | returned id payload => returned id (strip payload)
  | v => v

/-- Several values without tokens. -/
def stripAll : List Value → List Value
  | [] => []
  | v :: rest => strip v :: stripAll rest

/-- The entries of a hash without tokens. -/
def stripEntries : List (HashKey × (Value × Value)) → List (HashKey × (Value × Value))
  | [] => []
  | (k, (key, value)) :: rest => (k, (strip key, strip value)) :: stripEntries rest

end

/-- A key and a value without tokens. -/
def stripPair (p : Value × Value) : Value × Value := (p.1.strip, p.2.strip)

theorem stripEntries_eq_map (es : List (HashKey × (Value × Value))) :
    stripEntries es = es.map fun e => (e.1, stripPair e.2) := by
  induction es with
  | nil => rfl
  | cons e rest ih => rw [stripEntries, ih]; rfl

@[simp] theorem isError_strip (v : Value) : v.strip.isError = v.isError := by
  cases v <;> rfl

end Value

/-! ## Frames and heaps -/

/-- Bindings without tokens. -/
def stripBindings (bindings : Ordered String Value) : Ordered String Value :=
  bindings.map fun b => (b.1, b.2.strip)

theorem find?_stripBindings (name : String) (bindings : Ordered String Value) :
    (stripBindings bindings).find? name = (bindings.find? name).map Value.strip := by
  induction bindings with
  | nil => rfl
  | cons b rest ih =>
    by_cases h : b.1 = name
    · simp [stripBindings, Ordered.find?, h]
    · simpa [stripBindings, Ordered.find?, h] using ih

/-- A frame without tokens. -/
def Frame.strip (f : Frame) : Frame := ⟨stripBindings f.bindings, f.outer⟩

namespace Heap

/-- A heap without tokens. -/
def strip (h : Heap) : Heap := ⟨h.frames.map Frame.strip⟩

theorem getElem?_strip (h : Heap) (i : FrameId) :
    h.strip.frames[i]? = h.frames[i]?.map Frame.strip :=
  Array.getElem?_map

theorem create_strip (h : Heap) (outer : Option FrameId) :
    h.strip.create outer = ((h.create outer).1.strip, (h.create outer).2) := by
  simp [strip, create, Frame.strip, stripBindings]

theorem bind_strip (h : Heap) (i : FrameId) (name : String) (v : Value) :
    h.strip.bind i name v.strip = (h.bind i name v).strip := by
  unfold bind strip
  congr 1
  apply Array.ext_getElem?
  intro j
  have hinsert (f : Frame) : Frame.strip { f with bindings := f.bindings.insert name v } =
      { f.strip with bindings := f.strip.bindings.insert name v.strip } :=
    congrArg (Frame.mk · f.outer) (Ordered.map_insert Value.strip name v f.bindings)
  rw [Array.getElem?_modify, Array.getElem?_map, Array.getElem?_map, Array.getElem?_modify]
  by_cases h : i = j
  · rw [if_pos h, if_pos h, Option.map_map, Option.map_map]
    exact congrArg (Option.map · _) (funext fun f => (hinsert f).symm)
  · rw [if_neg h, if_neg h]

theorem bindings_strip (h : Heap) (i : FrameId) :
    h.strip.bindings i = stripBindings (h.bindings i) := by
  unfold bindings
  rw [getElem?_strip]
  cases h.frames[i]? <;> rfl

theorem lookupWithin_strip (h : Heap) (name : String) (steps : Nat) (i : FrameId) :
    h.strip.lookupWithin name steps i = (h.lookupWithin name steps i).map Value.strip := by
  induction steps generalizing i with
  | zero => rfl
  | succ steps ih =>
    rw [lookupWithin, lookupWithin, getElem?_strip]
    cases h.frames[i]? with
    | none => rfl
    | some f =>
      simp only [Option.map_some, Frame.strip, find?_stripBindings]
      cases f.bindings.find? name with
      | some v => rfl
      | none =>
        cases f.outer with
        | none => rfl
        | some j => exact ih j

theorem lookup_strip (h : Heap) (name : String) (i : FrameId) :
    h.strip.lookup name i = (h.lookup name i).map Value.strip :=
  h.lookupWithin_strip name (i + 1) i

end Heap

end Monkey
