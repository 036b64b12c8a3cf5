import Monkey.Proofs.Eval.Halt
import Monkey.Proofs.Session

/-!
# Evaluation with jumps

Evaluation in which a return statement jumps: it breaks off whatever is being evaluated and
ends the call around it, or the program if there is none, with the value of its operand.  No
rule looks at values for early returns, and there are no such values.
-/

namespace Monkey

namespace NonLocal

open Halt (step)

/-- A step of evaluation, from which a return statement jumps with a value. -/
abbrev Run (α : Type) := EStateM (Halt Value) Machine α

/-- What the evaluation of a tree is given besides: how to call a function in which return
    statements jump. -/
structure Context extends EvalContext where
  enter : Value → List Value → Run Value

/-- Jumps with a value.  An early return uses up the number of an object, unless its value is
    an error. -/
def jump (v : Value) : Run Value := do
  let _ ← step (if v.isError then pure 0 else Machine.newObject)
  throw (.thrown v)

/-- Where jumps end: the value that one jumped with, if one did. -/
def landing (x : Run Value) : Run Value := fun m =>
  match x m with
  | .error (.thrown v) m => .ok v m
  | r => r

mutual

/-- The value of a node in a frame. -/
def eval (cx : Context) (frame : FrameId) (n : Node) : Run Value := do
  step (Eval.trace cx.tracing n)
  match n with
  | .program statements _ => landing (evalProgram cx frame .absent statements)
  | .exprStatement expression _ => eval cx frame expression
  | .block statements _ => evalBlock cx frame .absent statements
  | .letBinding name value _ =>
    let v ← eval cx frame value
    if v.isError then pure v
    else
      step (Machine.bind frame name.value v)
      pure .absent
  | .returning value _ =>
    let v ← eval cx frame value
    jump v
  | .integer value _ => pure (.ofInt value)
  | .string value _ => pure (.string value)
  | .boolean value _ => pure (.boolean value)
  | .array elements _ =>
    match ← evalAll cx frame elements with
    | .error e => pure e
    | .ok vs => step (Machine.newArray vs)
  | .hash pairs _ =>
    match ← evalPairs cx frame [] pairs with
    | .error e => pure e
    | .ok entries => step (Machine.newHash entries)
  | .function parameters body _ => step (Machine.newFunction parameters body frame)
  | .identifier name => step (Eval.valueOfName cx.toEvalContext frame name.value)
  | .prefixed operator right _ =>
    let r ← eval cx frame right
    if r.isError then pure r else step (Operator.applyPrefix operator r)
  | .binary left operator right _ =>
    let l ← eval cx frame left
    if l.isError then pure l
    else
      let r ← eval cx frame right
      if r.isError then pure r else step (Operator.applyBinary operator l r)
  | .conditional condition consequence alternative _ =>
    let c ← eval cx frame condition
    if c.isError then pure c
    else if c.isTruthy then eval cx frame consequence
    else evalAlternative cx frame alternative
  | .call callee arguments _ =>
    let f ← eval cx frame callee
    if f.isError then pure f
    else
      match ← evalAll cx frame arguments with
      | .error e => pure e
      | .ok vs => cx.enter f vs
  | .index left subscript _ =>
    let l ← eval cx frame left
    if l.isError then pure l
    else
      let i ← eval cx frame subscript
      if i.isError then pure i else step (Operator.applyIndex cx.surrogate? l i)
  | .bare family => step (Problem.unknownNode family.name).raise

/-- The value of the second branch of a conditional, `null` if there is none. -/
def evalAlternative (cx : Context) (frame : FrameId) : Option Node → Run Value
  | none => pure .null
  | some alternative => eval cx frame alternative

/-- The value of top-level statements: that of the last one, or of the first that fails. -/
def evalProgram (cx : Context) (frame : FrameId) (last : Value) : List Node → Run Value
  | [] => pure last
  | s :: rest => do
    let v ← eval cx frame s
    if v.isError then pure v else evalProgram cx frame v rest

/-- The value of the statements of a block: that of the last one, or of the first that
    fails. -/
def evalBlock (cx : Context) (frame : FrameId) (last : Value) : List Node → Run Value
  | [] => pure (if last.isAbsent then .null else last)
  | s :: rest => do
    let v ← eval cx frame s
    if v.isError then pure v else evalBlock cx frame v rest

/-- The values of expressions from left to right, or the first error among them. -/
def evalAll (cx : Context) (frame : FrameId) : List Node → Run (Except Value (List Value))
  | [] => pure (.ok [])
  | n :: rest => do
    let v ← eval cx frame n
    if v.isError then pure (.error v)
    else
      match ← evalAll cx frame rest with
      | .error e => pure (.error e)
      | .ok vs => pure (.ok (v :: vs))

/-- The entries of a hash literal after those read so far, or the first error. -/
def evalPairs (cx : Context) (frame : FrameId) (entries : Ordered HashKey (Value × Value)) :
    List (Node × Node) → Run (Except Value (Ordered HashKey (Value × Value)))
  | [] => pure (.ok entries)
  | (keyNode, valueNode) :: rest => do
    let key ← eval cx frame keyNode
    if key.isError then pure (.error key)
    else
      step (Operator.demand key)
      if key.isHashable then
        let value ← eval cx frame valueNode
        if value.isError then pure (.error value)
        else
          let k ← step (Operator.keyOf cx.surrogate? key)
          evalPairs cx frame (entries.insert k (key, value)) rest
      else
        let e ← step (Problem.notHashable key.typeName).raise
        pure (.error e)

end

/-- Calls a value with arguments.  A jump out of the body of a function ends here. -/
def applyFunction (setting : Setting) : Nat → Value → List Value → Run Value
  | depth, .function _ parameters body frame, args =>
    if parameters.length ≠ args.length then
      step (Problem.wrongArity parameters.length args.length).raise
    else
      match depth with
      | 0 => throw (.stopped .callDepth)
      | depth + 1 => do
        let inner ← step (Machine.createFrame (some frame))
        step (Eval.bindAll inner parameters args)
        let cx : Context := ⟨Eval.contextOfDepth setting depth, applyFunction setting depth⟩
        landing do
          let v ← eval cx inner body
          step (Operator.demand v)
          pure v
  | _, .builtin b, args => step (b.apply args)
  | _, .absent, _ => throw (.stopped .absentOperand)
  | _, f, _ => step (Problem.notCallable f.typeName).raise

/-- The value of top-level statements in a frame, or the value that a return statement jumped
    with. -/
def evalStatements (setting : Setting) (frame : FrameId) (statements : List Node) :
    Monkey.Run Value := fun m =>
  match evalProgram ⟨Eval.contextOfDepth setting setting.callLimit,
      applyFunction setting setting.callLimit⟩ frame .absent statements m with
  | .ok v m | .error (.thrown v) m => .ok v m
  | .error (.stopped reason) m => .error reason m

/-- Runs a source text, unless it has mistakes. -/
def run (s : Session) (source : String) :
    Except Numeral.Refusal (Session.Answer × Session) :=
  s.runBy evalStatements source

end NonLocal

end Monkey
