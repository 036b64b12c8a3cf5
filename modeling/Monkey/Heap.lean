import Monkey.Value.Basic

/-!
# Frames and the heap

Scopes as numbered frames of bindings.  A frame knows the frame around it; a name is looked
up frame by frame outward, and bound in one frame only.
-/

namespace Monkey

/-- The bindings of a scope and the scope around it. -/
structure Frame where
  bindings : Ordered String Value
  outer : Option FrameId

/-- All frames, numbered in the order of their creation. -/
structure Heap where
  frames : Array Frame

namespace Heap

/-- No frames. -/
def empty : Heap := ⟨#[]⟩

/-- The heap with a new frame, and its number. -/
def create (h : Heap) (outer : Option FrameId) : Heap × FrameId :=
  let i := h.frames.size
  (⟨h.frames.push ⟨[], outer⟩⟩, i)

/-- The bindings of a frame. -/
def bindings (h : Heap) (i : FrameId) : Ordered String Value :=
  (h.frames[i]?.map Frame.bindings).getD []

/-- The heap with a name bound in a frame. -/
def bind (h : Heap) (i : FrameId) (name : String) (value : Value) : Heap :=
  ⟨h.frames.modify i fun f => { f with bindings := f.bindings.insert name value }⟩

/-- The value of a name, from a frame outward over at most a given number of frames. -/
def lookupWithin (h : Heap) (name : String) : Nat → FrameId → Option Value
  | 0, _ => none
  | steps + 1, i =>
    match h.frames[i]? with
    | none => none
    | some f =>
      match f.bindings.find? name with
      | some v => some v
      | none =>
        match f.outer with
        | some j => lookupWithin h name steps j
        | none => none

/-- The value of a name, from a frame outward.  The frames around a frame have smaller
    numbers, so the chain ends in time. -/
def lookup (h : Heap) (name : String) (i : FrameId) : Option Value :=
  lookupWithin h name (i + 1) i

@[simp] theorem size_create (h : Heap) (outer : Option FrameId) :
    (h.create outer).1.frames.size = h.frames.size + 1 := Array.size_push ..

@[simp] theorem size_bind (h : Heap) (i : FrameId) (x : String) (v : Value) :
    (h.bind i x v).frames.size = h.frames.size := Array.size_modify

end Heap

end Monkey
