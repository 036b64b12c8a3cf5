import Monkey.Proofs.Session

/-!
# Observed evaluation

Evaluation that keeps a log of what it does: which evaluation of a literal or call of a builtin
made which value, and which operator was applied to which values.  It never looks at the log.
-/

namespace Monkey

/-- Whether a builtin gives arrays that there were not before. -/
def Builtin.makesArrays (b : Builtin) : Bool :=
  match b.action with
  | .rest | .push | .echo => true
  | _ => false

/-- Among the builtins of the language, these are `rest` and `push`. -/
example : Builtin.standard.filter Builtin.makesArrays = [⟨"rest", .rest⟩, ⟨"push", .push⟩] := by
  decide

namespace Observed

/-- What makes a value: the evaluation of a node, or the call of a builtin. -/
inductive Origin where
  | evaluated (n : Node)
  | called (b : Builtin) (args : List Value)

/-- Whether a value is of the kind that is made there.  The evaluation of a literal of an array,
    a hash or a function makes one of these, that of a return statement an early return; only
    some builtins make arrays. -/
def Origin.makes : Origin → Value → Bool
  | evaluated (.array ..), .array .. => true
  | evaluated (.hash ..), .hash .. => true
  | evaluated (.function ..), .function .. => true
  | evaluated (.returning ..), .returned .. => true
  | called b _, .array .. => b.makesArrays
  | _, _ => false

/-- What is logged. -/
inductive Event where
  /-- A value was made. -/
  | made (origin : Origin) (v : Value)
  /-- An operator was applied to two values and gave a third. -/
  | applied (operator : String) (left right result : Value)

/-- What has happened, the oldest first. -/
abbrev Log := List Event

/-- The state of observed evaluation. -/
structure State where
  machine : Machine
  log : Log

/-- A step of observed evaluation. -/
abbrev Run (α : Type) := EStateM Stop State α

/-- A step that is not logged. -/
def step {α : Type} (x : Monkey.Run α) : Run α := fun s =>
  match x s.machine with
  | .ok a m => .ok a { s with machine := m }
  | .error reason m => .error reason { s with machine := m }

/-- A step with which events are logged that its value tells. -/
def noting (events : Value → Log) (x : Monkey.Run Value) : Run Value := fun s =>
  match x s.machine with
  | .ok v m => .ok v ⟨m, s.log ++ events v⟩
  | .error reason m => .error reason { s with machine := m }

/-- A step that is logged if it gives a value of the kind that is made there. -/
def make (origin : Origin) (x : Monkey.Run Value) : Run Value :=
  noting (fun v => if origin.makes v then [.made origin v] else []) x

/-- A binary operator, whose application is logged. -/
def applyBinary (operator : String) (left right : Value) : Run Value :=
  noting (fun v => [.applied operator left right v]) (Operator.applyBinary operator left right)

/-- What observed evaluation of a tree is given besides: how to call a function under
    observation. -/
structure Context extends EvalContext where
  observedCall : Value → List Value → Run Value

mutual

/-- The value of a node in a frame. -/
def eval (cx : Context) (frame : FrameId) (n : Node) : Run Value := do
  step (Eval.trace cx.tracing n)
  match n with
  | .program statements _ => evalProgram cx frame .absent statements
  | .exprStatement expression _ => eval cx frame expression
  | .block statements _ => evalBlock cx frame .absent statements
  | .letBinding name value _ =>
    let v ← eval cx frame value
    if v.isError then pure v
    else
      step (Machine.bind frame name.value v)
      pure .absent
  | .returning value _ =>
    let v ← eval cx frame value
    if v.isError then pure v else make (.evaluated n) (Machine.newReturned v)
  | .integer value _ => pure (.ofInt value)
  | .string value _ => pure (.string value)
  | .boolean value _ => pure (.boolean value)
  | .array elements _ =>
    match ← evalAll cx frame elements with
    | .error e => pure e
    | .ok vs => make (.evaluated n) (Machine.newArray vs)
  | .hash pairs _ =>
    match ← evalPairs cx frame [] pairs with
    | .error e => pure e
    | .ok entries => make (.evaluated n) (Machine.newHash entries)
  | .function parameters body _ =>
    make (.evaluated n) (Machine.newFunction parameters body frame)
  | .identifier name => step (Eval.valueOfName cx.toEvalContext frame name.value)
  | .prefixed operator right _ =>
    let r ← eval cx frame right
    if r.isError then pure r else step (Operator.applyPrefix operator r)
  | .binary left operator right _ =>
    let l ← eval cx frame left
    if l.isError then pure l
    else
      let r ← eval cx frame right
      if r.isError then pure r else applyBinary operator l r
  | .conditional condition consequence alternative _ =>
    let c ← eval cx frame condition
    if c.isError then pure c
    else if c.isTruthy then eval cx frame consequence
    else evalAlternative cx frame alternative
  | .call callee arguments _ =>
    let f ← eval cx frame callee
    if f.isError then pure f
    else
      match ← evalAll cx frame arguments with
      | .error e => pure e
      | .ok vs => cx.observedCall f vs
  | .index left subscript _ =>
    let l ← eval cx frame left
    if l.isError then pure l
    else
      let i ← eval cx frame subscript
      if i.isError then pure i else step (Operator.applyIndex cx.surrogate? l i)
  | .bare family => step (Problem.unknownNode family.name).raise

/-- The value of the second branch of a conditional. -/
def evalAlternative (cx : Context) (frame : FrameId) : Option Node → Run Value
  | none => pure .null
  | some alternative => eval cx frame alternative

/-- The value of top-level statements. -/
def evalProgram (cx : Context) (frame : FrameId) (last : Value) : List Node → Run Value
  | [] => pure last
  | s :: rest => do
    match ← eval cx frame s with
    | .returned _ payload => pure payload
    | .error id message => pure (.error id message)
    | v => evalProgram cx frame v rest

/-- The value of the statements of a block. -/
def evalBlock (cx : Context) (frame : FrameId) (last : Value) : List Node → Run Value
  | [] => pure (if last.isAbsent then .null else last)
  | s :: rest => do
    match ← eval cx frame s with
    | .returned id payload => pure (.returned id payload)
    | .error id message => pure (.error id message)
    | v => evalBlock cx frame v rest

/-- The values of expressions from left to right, or the first error among them. -/
def evalAll (cx : Context) (frame : FrameId) : List Node → Run (Except Value (List Value))
  | [] => pure (.ok [])
  | n :: rest => do
    let v ← eval cx frame n
    if v.isError then pure (.error v)
    else
      match ← evalAll cx frame rest with
      | .error e => pure (.error e)
      | .ok vs => pure (.ok (v :: vs))

/-- The entries of a hash literal after those read so far, or the first error. -/
def evalPairs (cx : Context) (frame : FrameId) (entries : Ordered HashKey (Value × Value)) :
    List (Node × Node) → Run (Except Value (Ordered HashKey (Value × Value)))
  | [] => pure (.ok entries)
  | (keyNode, valueNode) :: rest => do
    let key ← eval cx frame keyNode
    if key.isError then pure (.error key)
    else
      step (Operator.demand key)
      if key.isHashable then
        let value ← eval cx frame valueNode
        if value.isError then pure (.error value)
        else
          let k ← step (Operator.keyOf cx.surrogate? key)
          evalPairs cx frame (entries.insert k (key, value)) rest
      else
        let e ← step (Problem.notHashable key.typeName).raise
        pure (.error e)

end

/-- Calls a value with arguments. -/
def applyFunction (setting : Setting) : Nat → Value → List Value → Run Value
  | depth, .function _ parameters body frame, args =>
    if parameters.length ≠ args.length then
      step (Problem.wrongArity parameters.length args.length).raise
    else
      match depth with
      | 0 => throw .callDepth
      | depth + 1 => do
        let inner ← step (Machine.createFrame (some frame))
        step (Eval.bindAll inner parameters args)
        let cx : Context := ⟨Eval.contextOfDepth setting depth, applyFunction setting depth⟩
        let v ← eval cx inner body
        step (Eval.openReturn v)
  | _, .builtin b, args => make (.called b args) (b.apply args)
  | _, .absent, _ => throw .absentOperand
  | _, f, _ => step (Problem.notCallable f.typeName).raise

/-- The context in which calls may be nested to a given depth. -/
def contextOfDepth (setting : Setting) (depth : Nat) : Context :=
  ⟨Eval.contextOfDepth setting depth, applyFunction setting depth⟩

/-- The value of top-level statements in a frame. -/
def evalStatements (setting : Setting) (frame : FrameId) (statements : List Node) : Run Value :=
  evalProgram (contextOfDepth setting setting.callLimit) frame .absent statements

/-- Runs parsed statements. -/
def evaluate (s : Session) (log : Log) (statements : List Node) :
    (Session.Answer × Session) × Log :=
  match evalStatements s.toSetting s.root statements
      ⟨{ s.machine with output := [] }, log⟩ with
  | .ok v t =>
    ((⟨.finished v, t.machine.output.reverse⟩,
      { s with machine := { t.machine with output := [] } }), t.log)
  | .error reason t =>
    ((⟨.stopped reason, t.machine.output.reverse⟩,
      { s with machine := { t.machine with output := [] } }), t.log)

/-- Runs a source text and logs what it does. -/
def turn (s : Session) (log : Log) (source : String) : Session.Turn × Log :=
  match parse source with
  | .error refusal => (⟨.error refusal, s⟩, log)
  | .ok p =>
    let traced := Session.traceLines s.tracing p
    if p.diagnostics.isEmpty then
      let done := evaluate s log p.statements
      (⟨.ok ⟨done.1.1.outcome, traced ++ done.1.1.output⟩, done.1.2⟩, done.2)
    else (⟨.ok ⟨.rejected p.errors, traced⟩, s⟩, log)

/-- Runs source texts one after the other, with one log of what they do. -/
def runAll (s : Session) (log : Log) : List String → List Session.Turn × Log
  | [] => ([], log)
  | source :: rest =>
    let first := turn s log source
    let others := runAll first.1.session first.2 rest
    (first.1 :: others.1, others.2)

end Observed

end Monkey
