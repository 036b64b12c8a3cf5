import Monkey.Proofs.Eval.Halt
import Monkey.Session

/-!
# Abrupt evaluation

Evaluation in which an error is thrown where it comes about and is caught at the top level
only.  No rule looks at the values of the parts of a tree for errors, and evaluation is
shown to agree with this one wherever no error is bound.
-/

namespace Monkey

namespace Abrupt

open Halt (step)

/-- A step of abrupt evaluation, which throws errors. -/
abbrev Run (α : Type) := EStateM (Halt Value) Machine α

/-- Throws the error value of a problem. -/
def raise {α : Type} (problem : Problem) : Run α := do
  let e ← step problem.raise
  throw (.thrown e)

/-- An operator or builtin at work: the error that it makes is thrown. -/
def operate (x : Monkey.Run Value) : Run Value := do
  let v ← step x
  if v.isError then throw (.thrown v) else pure v

/-- What abrupt evaluation of a tree is given. -/
structure Context extends Setting where
  call : Value → List Value → Run Value

/-- The value of a name: a binding in reach, otherwise a builtin. -/
def valueOfName (cx : Context) (frame : FrameId) (name : String) : Run Value := do
  match ← step (Machine.lookup frame name) with
  | some .absent | none =>
    match Builtin.find? cx.builtins name with
    | some b => pure (.builtin b)
    | none => raise (.unboundName name)
  | some v => pure v

mutual

/-- The value of a node in a frame. -/
def eval (cx : Context) (frame : FrameId) (n : Node) : Run Value := do
  step (Eval.trace cx.tracing n)
  match n with
  | .program statements _ => evalProgram cx frame .absent statements
  | .exprStatement expression _ => eval cx frame expression
  | .block statements _ => evalBlock cx frame .absent statements
  | .letBinding name value _ =>
    let v ← eval cx frame value
    step (Machine.bind frame name.value v)
    pure .absent
  | .returning value _ =>
    let v ← eval cx frame value
    step (Machine.newReturned v)
  | .integer value _ => pure (.ofInt value)
  | .string value _ => pure (.string value)
  | .boolean value _ => pure (.boolean value)
  | .array elements _ =>
    let vs ← evalAll cx frame elements
    step (Machine.newArray vs)
  | .hash pairs _ =>
    let entries ← evalPairs cx frame [] pairs
    step (Machine.newHash entries)
  | .function parameters body _ => step (Machine.newFunction parameters body frame)
  | .identifier name => valueOfName cx frame name.value
  | .prefixed operator right _ =>
    let r ← eval cx frame right
    operate (Operator.applyPrefix operator r)
  | .binary left operator right _ =>
    let l ← eval cx frame left
    let r ← eval cx frame right
    operate (Operator.applyBinary operator l r)
  | .conditional condition consequence alternative _ =>
    let c ← eval cx frame condition
    if c.isTruthy then eval cx frame consequence
    else evalAlternative cx frame alternative
  | .call callee arguments _ =>
    let f ← eval cx frame callee
    let vs ← evalAll cx frame arguments
    cx.call f vs
  | .index left subscript _ =>
    let l ← eval cx frame left
    let i ← eval cx frame subscript
    operate (Operator.applyIndex cx.surrogate? l i)
  | .bare family => raise (.unknownNode family.name)

/-- The value of the second branch of a conditional, `null` if there is none. -/
def evalAlternative (cx : Context) (frame : FrameId) : Option Node → Run Value
  | none => pure .null
  | some alternative => eval cx frame alternative

/-- The value of top-level statements: that of the last one, or of the first that returns. -/
def evalProgram (cx : Context) (frame : FrameId) (last : Value) : List Node → Run Value
  | [] => pure last
  | s :: rest => do
    match ← eval cx frame s with
    | .returned _ payload => pure payload
    | v => evalProgram cx frame v rest

/-- The value of the statements of a block: that of the last one, or of the first that
    returns. -/
def evalBlock (cx : Context) (frame : FrameId) (last : Value) : List Node → Run Value
  | [] => pure (if last.isAbsent then .null else last)
  | s :: rest => do
    match ← eval cx frame s with
    | .returned id payload => pure (.returned id payload)
    | v => evalBlock cx frame v rest

/-- The values of expressions from left to right. -/
def evalAll (cx : Context) (frame : FrameId) : List Node → Run (List Value)
  | [] => pure []
  | n :: rest => do
    let v ← eval cx frame n
    let vs ← evalAll cx frame rest
    pure (v :: vs)

/-- The entries of a hash literal after those read so far. -/
def evalPairs (cx : Context) (frame : FrameId) (entries : Ordered HashKey (Value × Value)) :
    List (Node × Node) → Run (Ordered HashKey (Value × Value))
  | [] => pure entries
  | (keyNode, valueNode) :: rest => do
    let key ← eval cx frame keyNode
    step (Operator.demand key)
    if key.isHashable then
      let value ← eval cx frame valueNode
      let k ← step (Operator.keyOf cx.surrogate? key)
      evalPairs cx frame (entries.insert k (key, value)) rest
    else raise (.notHashable key.typeName)

end

/-- Calls a value with arguments. -/
def applyFunction (setting : Setting) : Nat → Value → List Value → Run Value
  | depth, .function _ parameters body frame, args =>
    if parameters.length ≠ args.length then
      raise (.wrongArity parameters.length args.length)
    else
      match depth with
      | 0 => throw (.stopped .callDepth)
      | depth + 1 => do
        let inner ← step (Machine.createFrame (some frame))
        step (Eval.bindAll inner parameters args)
        let v ← eval ⟨setting, applyFunction setting depth⟩ inner body
        step (Eval.openReturn v)
  | _, .builtin b, args => operate (b.apply args)
  | _, .absent, _ => throw (.stopped .absentOperand)
  | _, f, _ => raise (.notCallable f.typeName)

/-- The value of top-level statements in a frame: the error that was thrown, if one was. -/
def evalStatements (setting : Setting) (frame : FrameId) (statements : List Node) :
    Monkey.Run Value := fun m =>
  match evalProgram ⟨setting, applyFunction setting setting.callLimit⟩ frame .absent statements
      m with
  | .ok v m => .ok v m
  | .error (.thrown e) m => .ok e m
  | .error (.stopped reason) m => .error reason m

/-- Runs a source text, unless it has mistakes. -/
def run (s : Session) (source : String) :
    Except Numeral.Refusal (Session.Answer × Session) := do
  let p ← parse source
  let traced := Session.traceLines s.tracing p
  if p.diagnostics.isEmpty then
    let done := s.machine.perform (evalStatements s.toSetting s.root p.statements)
    let outcome := match done.result with
      | .ok v => Session.Outcome.finished v
      | .error e => Session.Outcome.stopped e
    pure (⟨outcome, traced ++ done.output⟩, { s with machine := done.machine })
  else
    pure (⟨.rejected p.errors, traced⟩, s)

end Abrupt

end Monkey
