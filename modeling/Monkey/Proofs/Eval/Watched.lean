import Monkey.Proofs.Eval.Halt
import Monkey.Session

/-!
# Watched evaluation

Evaluation that is broken off where an early return would escape: where a value is about to
be bound, stored in an array or a hash, passed as an argument, or handed out by a function
or by the program.  It keeps track of the return statements that end expressions, and the
alarm that breaks it off is given from outside.
-/

namespace Monkey

/-- Whether a value is an early return. -/
def Value.isReturned : Value → Bool
  | returned .. => true
  | _ => false

namespace Watched

open Halt (step)

/-- How the evaluation of a node ends: with a value of its own, or by a return statement in
    it, whose operand has an ending too. -/
inductive Ending where
  | value (v : Value)
  | returned (id : ObjectId) (operand : Ending)

namespace Ending

/-- The value that evaluation gives for an ending. -/
def toValue : Ending → Value
  | value v => v
  | returned id operand => .returned id operand.toValue

/-- Whether a return statement ended the evaluation. -/
def byReturn : Ending → Bool
  | value _ => false
  | returned .. => true

/-- Whether the value is an early return, wherever it comes from. -/
def isSignal (e : Ending) : Bool := e.toValue.isReturned

/-- Whether the value is an error. -/
def isError (e : Ending) : Bool := e.toValue.isError

/-- What an early return carries. -/
def opened : Ending → Ending
  | value (.returned _ payload) => value payload
  | value v => value v
  | returned _ operand => operand

end Ending

/-- Where values go that are more than parts of an expression. -/
inductive Site where
  /-- Into a binding. -/
  | binding (name : String)
  /-- Into an array. -/
  | element
  /-- Into a hash. -/
  | entry
  /-- To a function or builtin. -/
  | argument
  /-- From a function to its caller. -/
  | caller
  /-- From the program to the outside. -/
  | outside
deriving DecidableEq, Repr

/-- A step of watched evaluation, broken off where an early return would get to a site. -/
abbrev Run (α : Type) := EStateM (Halt Site) Machine α

/-- A last step that ends with its value. -/
def valueOf (x : Monkey.Run Value) : Run Ending := do
  let v ← step x
  pure (.value v)

/-- What watched evaluation of a tree is given besides: the alarm, which tells the endings
    that must not get to a site, and how to call a function under watch. -/
structure Context extends EvalContext where
  alarm : Ending → Bool
  watchedCall : Value → List Value → Run Value

/-- The value of an ending that is to get to a site. -/
def pass (alarm : Ending → Bool) (site : Site) (e : Ending) : Run Value :=
  if alarm e then throw (.thrown site) else pure e.toValue

/-- The values of endings that are to get to a site together. -/
def passAll (alarm : Ending → Bool) (site : Site) (es : List Ending) : Run (List Value) :=
  if es.any alarm then throw (.thrown site) else pure (es.map Ending.toValue)

/-- Entries with the values of their endings. -/
def valuesOf (entries : Ordered HashKey (Value × Ending)) : Ordered HashKey (Value × Value) :=
  entries.map fun e => (e.1, (e.2.1, e.2.2.toValue))

/-- The entries of a hash whose values are to get there. -/
def passEntries (alarm : Ending → Bool) (entries : Ordered HashKey (Value × Ending)) :
    Run (Ordered HashKey (Value × Value)) :=
  if entries.any fun e => alarm e.2.2 then throw (.thrown .entry) else pure (valuesOf entries)

mutual

/-- How a node ends in a frame. -/
def eval (cx : Context) (frame : FrameId) (n : Node) : Run Ending := do
  step (Eval.trace cx.tracing n)
  match n with
  | .program statements _ =>
    let v ← evalProgram cx frame .absent statements
    pure (.value v)
  | .exprStatement expression _ => eval cx frame expression
  | .block statements _ => evalBlock cx frame .absent statements
  | .letBinding name value _ =>
    let e ← eval cx frame value
    if e.isError then pure e
    else
      let v ← pass cx.alarm (.binding name.value) e
      step (Machine.bind frame name.value v)
      pure (.value .absent)
  | .returning value _ =>
    let e ← eval cx frame value
    if e.isError then pure e
    else
      let id ← step Machine.newObject
      pure (.returned id e)
  | .integer value _ => pure (.value (.ofInt value))
  | .string value _ => pure (.value (.string value))
  | .boolean value _ => pure (.value (.boolean value))
  | .array elements _ =>
    match ← evalAll cx frame elements with
    | .error v => pure (.value v)
    | .ok es =>
      let vs ← passAll cx.alarm .element es
      valueOf (Machine.newArray vs)
  | .hash pairs _ =>
    match ← evalPairs cx frame [] pairs with
    | .error v => pure (.value v)
    | .ok es =>
      let entries ← passEntries cx.alarm es
      valueOf (Machine.newHash entries)
  | .function parameters body _ => valueOf (Machine.newFunction parameters body frame)
  | .identifier name => valueOf (Eval.valueOfName cx.toEvalContext frame name.value)
  | .prefixed operator right _ =>
    let r ← eval cx frame right
    if r.isError then pure r else valueOf (Operator.applyPrefix operator r.toValue)
  | .binary left operator right _ =>
    let l ← eval cx frame left
    if l.isError then pure l
    else
      let r ← eval cx frame right
      if r.isError then pure r else valueOf (Operator.applyBinary operator l.toValue r.toValue)
  | .conditional condition consequence alternative _ =>
    let c ← eval cx frame condition
    if c.isError then pure c
    else if c.toValue.isTruthy then eval cx frame consequence
    else evalAlternative cx frame alternative
  | .call callee arguments _ =>
    let f ← eval cx frame callee
    if f.isError then pure f
    else
      match ← evalAll cx frame arguments with
      | .error v => pure (.value v)
      | .ok es =>
        let vs ← passAll cx.alarm .argument es
        let v ← cx.watchedCall f.toValue vs
        pure (.value v)
  | .index left subscript _ =>
    let l ← eval cx frame left
    if l.isError then pure l
    else
      let i ← eval cx frame subscript
      if i.isError then pure i
      else valueOf (Operator.applyIndex cx.surrogate? l.toValue i.toValue)
  | .bare family => valueOf (Problem.unknownNode family.name).raise

/-- How the second branch of a conditional ends. -/
def evalAlternative (cx : Context) (frame : FrameId) : Option Node → Run Ending
  | none => pure (.value .null)
  | some alternative => eval cx frame alternative

/-- The value of top-level statements. -/
def evalProgram (cx : Context) (frame : FrameId) (last : Value) : List Node → Run Value
  | [] => pure last
  | s :: rest => do
    let e ← eval cx frame s
    if e.isSignal then pass cx.alarm .outside e.opened
    else if e.isError then pure e.toValue
    else evalProgram cx frame e.toValue rest

/-- How the statements of a block end. -/
def evalBlock (cx : Context) (frame : FrameId) (last : Value) : List Node → Run Ending
  | [] => pure (.value (if last.isAbsent then .null else last))
  | s :: rest => do
    let e ← eval cx frame s
    if e.isSignal then pure e
    else if e.isError then pure e
    else evalBlock cx frame e.toValue rest

/-- How expressions end from left to right, or the first error among them. -/
def evalAll (cx : Context) (frame : FrameId) : List Node → Run (Except Value (List Ending))
  | [] => pure (.ok [])
  | n :: rest => do
    let e ← eval cx frame n
    if e.isError then pure (.error e.toValue)
    else
      match ← evalAll cx frame rest with
      | .error v => pure (.error v)
      | .ok es => pure (.ok (e :: es))

/-- The entries of a hash literal after those read so far, or the first error. -/
def evalPairs (cx : Context) (frame : FrameId) (entries : Ordered HashKey (Value × Ending)) :
    List (Node × Node) → Run (Except Value (Ordered HashKey (Value × Ending)))
  | [] => pure (.ok entries)
  | (keyNode, valueNode) :: rest => do
    let key ← eval cx frame keyNode
    if key.isError then pure (.error key.toValue)
    else
      step (Operator.demand key.toValue)
      if key.toValue.isHashable then
        let e ← eval cx frame valueNode
        if e.isError then pure (.error e.toValue)
        else
          let k ← step (Operator.keyOf cx.surrogate? key.toValue)
          evalPairs cx frame (entries.insert k (key.toValue, e)) rest
      else
        let e ← step (Problem.notHashable key.toValue.typeName).raise
        pure (.error e)

end

/-- Calls a value with arguments. -/
def applyFunction (setting : Setting) (alarm : Ending → Bool) :
    Nat → Value → List Value → Run Value
  | depth, .function _ parameters body frame, args =>
    if parameters.length ≠ args.length then
      step (Problem.wrongArity parameters.length args.length).raise
    else
      match depth with
      | 0 => throw (.stopped .callDepth)
      | depth + 1 => do
        let inner ← step (Machine.createFrame (some frame))
        step (Eval.bindAll inner parameters args)
        let cx : Context :=
          ⟨Eval.contextOfDepth setting depth, alarm, applyFunction setting alarm depth⟩
        let e ← eval cx inner body
        if e.isSignal then pass alarm .caller e.opened else step (Eval.openReturn e.toValue)
  | _, .builtin b, args => step (b.apply args)
  | _, .absent, _ => throw (.stopped .absentOperand)
  | _, f, _ => step (Problem.notCallable f.typeName).raise

/-- The value of top-level statements in a frame. -/
def evalStatements (setting : Setting) (alarm : Ending → Bool) (frame : FrameId)
    (statements : List Node) : Run Value :=
  evalProgram ⟨Eval.contextOfDepth setting setting.callLimit, alarm,
    applyFunction setting alarm setting.callLimit⟩ frame .absent statements

/-- Runs parsed statements, or tells the site that an early return would have got to. -/
def evaluate (alarm : Ending → Bool) (s : Session) (statements : List Node) :
    Except Site (Session.Answer × Session) :=
  match evalStatements s.toSetting alarm s.root statements
      { s.machine with output := [] } with
  | .ok v m =>
    .ok (⟨.finished v, m.output.reverse⟩, { s with machine := { m with output := [] } })
  | .error (.stopped reason) m =>
    .ok (⟨.stopped reason, m.output.reverse⟩, { s with machine := { m with output := [] } })
  | .error (.thrown site) _ => .error site

/-- Runs a source text, unless it has mistakes, or tells the site that an early return would
    have got to. -/
def run (alarm : Ending → Bool) (s : Session) (source : String) :
    Except Numeral.Refusal (Except Site (Session.Answer × Session)) := do
  let p ← parse source
  let traced := Session.traceLines s.tracing p
  if p.diagnostics.isEmpty then
    match evaluate alarm s p.statements with
    | .error site => pure (.error site)
    | .ok (answer, s) => pure (.ok (⟨answer.outcome, traced ++ answer.output⟩, s))
  else
    pure (.ok (⟨.rejected p.errors, traced⟩, s))

end Watched

end Monkey
