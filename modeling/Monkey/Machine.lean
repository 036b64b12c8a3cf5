import Monkey.Heap

/-!
# The machine

What evaluation works on: the heap, the number of the next object, and what has been
written out so far.  Evaluation that cannot go on stops the machine where it stands.
-/

namespace Monkey

/-- A line of output: printed by the program, or a trace of its evaluation. -/
inductive OutputLine where
  | printed (text : String)
  | traced (text : String)
deriving DecidableEq, Repr

/-- The text of a line of output. -/
def OutputLine.text : OutputLine → String
  | printed text | traced text => text

/-- The state of evaluation.  The newest line of output is the first. -/
structure Machine where
  heap : Heap := .empty
  nextObject : ObjectId := 0
  output : List OutputLine := []

/-- Why evaluation stops without a value. -/
inductive Stop where
  /-- Calls are nested too deeply. -/
  | callDepth
  /-- An operation needs a value where there is none. -/
  | absentOperand
  /-- A hash needs the key of a value that has none. -/
  | noKey (refusal : KeyRefusal)
deriving DecidableEq, Repr

/-- The wording for an operation on no value. -/
def absentMessage : String := "'NoneType' object is not subscriptable"

/-- The message of a stop. -/
def Stop.message : Stop → String
  | callDepth => "maximum recursion depth exceeded"
  | absentOperand => absentMessage
  | noKey refusal => refusal.message

/-- A step of evaluation. -/
abbrev Run (α : Type) := EStateM Stop Machine α

namespace Machine

/-- A number that no object has yet. -/
def newObject : Run ObjectId := fun m =>
  .ok m.nextObject { m with nextObject := m.nextObject + 1 }

/-- Writes a line of output. -/
def write (line : OutputLine) : Run Unit := fun m =>
  .ok () { m with output := line :: m.output }

/-- Creates a frame inside another, or a frame of its own. -/
def createFrame (outer : Option FrameId) : Run FrameId := fun ⟨heap, nextObject, output⟩ =>
  match heap.create outer with
  | (heap, i) => .ok i ⟨heap, nextObject, output⟩

/-- Binds a name in a frame. -/
def bind (i : FrameId) (name : String) (value : Value) : Run Unit :=
  fun ⟨heap, nextObject, output⟩ => .ok () ⟨heap.bind i name value, nextObject, output⟩

/-- The value of a name, from a frame outward. -/
def lookup (i : FrameId) (name : String) : Run (Option Value) := fun m =>
  .ok (m.heap.lookup name i) m

/-- A new array. -/
def newArray (elements : List Value) : Run Value := do
  let id ← newObject
  pure (.array id elements)

/-- A new hash. -/
def newHash (entries : List (HashKey × (Value × Value))) : Run Value := do
  let id ← newObject
  pure (.hash id entries)

/-- A new closure over a frame. -/
def newFunction (parameters : List Name) (body : Node) (frame : FrameId) : Run Value := do
  let id ← newObject
  pure (.function id parameters body frame)

/-- A new early return. -/
def newReturned (payload : Value) : Run Value := do
  let id ← newObject
  pure (.returned id payload)

/-- A new error. -/
def newError (message : String) : Run Value := do
  let id ← newObject
  pure (.error id message)

end Machine

end Monkey
