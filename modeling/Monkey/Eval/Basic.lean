import Monkey.Builtin
import Monkey.Node.Text
import Monkey.Operator

/-!
# Evaluation

Trees to values.  Errors and early returns are values that every rule checks for and hands
upward; an early return is opened where a function is called and, once, by a program.
Evaluation of a tree is by recursion on the tree; what a call does is given from outside,
and `applyFunction` ties the knot with a bound on how deeply calls may be nested.
-/

namespace Monkey

/-- What evaluation is set to: whether it traces, the builtins, how deeply calls may be nested,
    and which characters stand for unpaired surrogates.

    The stack of the host is what bounds calls: it holds `RECURSION_LIMIT` frames, which are 20000,
    and a call takes eleven or twelve of them in a plain recursive function, which leaves about
    1660 calls, and more or fewer elsewhere.  No number of calls is this bound for all programs,
    so none is fixed here.  A program that the stack has room for ends within every limit that is
    large enough, and what holds under every limit holds of it. -/
structure Setting where
  tracing : Bool := false
  builtins : List Builtin := Builtin.standard
  callLimit : Nat
  surrogate? : Text.Surrogates := fun _ => none

/-- What the evaluation of a tree is given: a setting, and how to call a function. -/
structure EvalContext extends Setting where
  call : Value → List Value → Run Value

namespace Eval

/-- Writes a trace line for a node. -/
def trace (tracing : Bool) (n : Node) : Run Unit :=
  if tracing then Machine.write (.traced ("Evaluating: " ++ n.kindName ++ " " ++ n.text))
  else pure ()

/-- The value of a name: a binding in reach, otherwise a builtin. -/
def valueOfName (cx : EvalContext) (frame : FrameId) (name : String) : Run Value := do
  match ← Machine.lookup frame name with
  | some .absent | none =>
    match Builtin.find? cx.builtins name with
    | some b => pure (.builtin b)
    | none => (Problem.unboundName name).raise
  | some v => pure v

mutual

/-- The value of a node in a frame. -/
def eval (cx : EvalContext) (frame : FrameId) (n : Node) : Run Value := do
  trace cx.tracing n
  match n with
  | .program statements _ => evalProgram cx frame .absent statements
  | .exprStatement expression _ => eval cx frame expression
  | .block statements _ => evalBlock cx frame .absent statements
  | .letBinding name value _ =>
    let v ← eval cx frame value
    if v.isError then pure v
    else
      Machine.bind frame name.value v
      pure .absent
  | .returning value _ =>
    let v ← eval cx frame value
    if v.isError then pure v else Machine.newReturned v
  | .integer value _ => pure (.ofInt value)
  | .string value _ => pure (.string value)
  | .boolean value _ => pure (.boolean value)
  | .array elements _ =>
    match ← evalAll cx frame elements with
    | .error e => pure e
    | .ok vs => Machine.newArray vs
  | .hash pairs _ =>
    match ← evalPairs cx frame [] pairs with
    | .error e => pure e
    | .ok entries => Machine.newHash entries
  | .function parameters body _ => Machine.newFunction parameters body frame
  | .identifier name => valueOfName cx frame name.value
  | .prefixed operator right _ =>
    let r ← eval cx frame right
    if r.isError then pure r else Operator.applyPrefix operator r
  | .binary left operator right _ =>
    let l ← eval cx frame left
    if l.isError then pure l
    else
      let r ← eval cx frame right
      if r.isError then pure r else Operator.applyBinary operator l r
  | .conditional condition consequence alternative _ =>
    let c ← eval cx frame condition
    if c.isError then pure c
    else if c.isTruthy then eval cx frame consequence
    else evalAlternative cx frame alternative
  | .call callee arguments _ =>
    let f ← eval cx frame callee
    if f.isError then pure f
    else
      match ← evalAll cx frame arguments with
      | .error e => pure e
      | .ok vs => cx.call f vs
  | .index left subscript _ =>
    let l ← eval cx frame left
    if l.isError then pure l
    else
      let i ← eval cx frame subscript
      if i.isError then pure i else Operator.applyIndex cx.surrogate? l i
  | .bare family => (Problem.unknownNode family.name).raise

/-- The value of the second branch of a conditional, `null` if there is none. -/
def evalAlternative (cx : EvalContext) (frame : FrameId) : Option Node → Run Value
  | none => pure .null
  | some alternative => eval cx frame alternative

/-- The value of top-level statements: that of the last one, or of the first that returns
    or fails.  A return is opened. -/
def evalProgram (cx : EvalContext) (frame : FrameId) (last : Value) : List Node → Run Value
  | [] => pure last
  | s :: rest => do
    match ← eval cx frame s with
    | .returned _ payload => pure payload
    | .error id message => pure (.error id message)
    | v => evalProgram cx frame v rest

/-- The value of the statements of a block: that of the last one, or of the first that
    returns or fails.  A return is handed upward unopened, and no value counts as `null`. -/
def evalBlock (cx : EvalContext) (frame : FrameId) (last : Value) : List Node → Run Value
  | [] => pure (if last.isAbsent then .null else last)
  | s :: rest => do
    match ← eval cx frame s with
    | .returned id payload => pure (.returned id payload)
    | .error id message => pure (.error id message)
    | v => evalBlock cx frame v rest

/-- The values of expressions from left to right, or the first error among them. -/
def evalAll (cx : EvalContext) (frame : FrameId) :
    List Node → Run (Except Value (List Value))
  | [] => pure (.ok [])
  | n :: rest => do
    let v ← eval cx frame n
    if v.isError then pure (.error v)
    else
      match ← evalAll cx frame rest with
      | .error e => pure (.error e)
      | .ok vs => pure (.ok (v :: vs))

/-- The entries of a hash literal after those read so far, or the first error.  A pair
    whose key is known already keeps the place and replaces key and value. -/
def evalPairs (cx : EvalContext) (frame : FrameId) (entries : Ordered HashKey (Value × Value)) :
    List (Node × Node) → Run (Except Value (Ordered HashKey (Value × Value)))
  | [] => pure (.ok entries)
  | (keyNode, valueNode) :: rest => do
    let key ← eval cx frame keyNode
    if key.isError then pure (.error key)
    else
      Operator.demand key
      if key.isHashable then
        let value ← eval cx frame valueNode
        if value.isError then pure (.error value)
        else
          let k ← Operator.keyOf cx.surrogate? key
          evalPairs cx frame (entries.insert k (key, value)) rest
      else
        let e ← (Problem.notHashable key.typeName).raise
        pure (.error e)

end

/-- Binds parameters to arguments in a frame. -/
def bindAll (frame : FrameId) : List Name → List Value → Run Unit
  | name :: names, v :: vs => do
    Machine.bind frame name.value v
    bindAll frame names vs
  | _, _ => pure ()

/-- The value that a function body leaves for its caller: an early return is opened. -/
def openReturn : Value → Run Value
  | .returned _ payload => pure payload
  | .absent => throw .absentOperand
  | v => pure v

/-- Calls a value with arguments.  The body of a function runs in a new frame inside the
    frame that the function closes over; at depth zero it cannot run any more. -/
def applyFunction (setting : Setting) : Nat → Value → List Value → Run Value
  | depth, .function _ parameters body frame, args =>
    if parameters.length ≠ args.length then
      (Problem.wrongArity parameters.length args.length).raise
    else
      match depth with
      | 0 => throw .callDepth
      | depth + 1 => do
        let inner ← Machine.createFrame (some frame)
        bindAll inner parameters args
        let v ← eval ⟨setting, applyFunction setting depth⟩ inner body
        openReturn v
  | _, .builtin b, args => b.apply args
  | _, .absent, _ => throw .absentOperand
  | _, f, _ => (Problem.notCallable f.typeName).raise

/-- The context in which calls may be nested to a given depth. -/
def contextOfDepth (setting : Setting) (depth : Nat) : EvalContext :=
  ⟨setting, applyFunction setting depth⟩

end Eval

end Monkey
