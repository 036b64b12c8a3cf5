import Monkey.Proofs.Eval.Halt
import Monkey.Proofs.Session

/-!
# Strict evaluation

Evaluation in which every operation demands what it works on.  Types are told by name and
parts are taken afterwards, elements are taken by number, and whatever is not there breaks
the evaluation off.  So does an error that is about to be kept: bound, put in an array or a
hash, carried by an early return or passed to a call.  A list of values that evaluation is
after and the error that it came to instead are told apart by looking at the list.
-/

namespace Monkey

namespace Strict

open Halt (step)

/-- Why strict evaluation is broken off. -/
inductive Fault where
  /-- The type of a value is asked for, or a part of it, where there is no value. -/
  | noValue
  /-- A value has not got the part that the name of its type promises. -/
  | missingPart
  /-- A list has no element of the number asked for. -/
  | outOfRange
  /-- The divisor is zero. -/
  | zeroDivisor
  /-- The value is none of those that can be keys. -/
  | notHashable
  /-- An expression or a block leaves no value. -/
  | emptyHanded
  /-- There is no rule for the node. -/
  | unknownNode
  /-- There is no rule for the prefix operator. -/
  | unknownPrefix
  /-- An error is about to be bound, held, carried or passed. -/
  | errorKept
deriving DecidableEq, Repr

/-- A step of strict evaluation. -/
abbrev Run (α : Type) := EStateM (Halt Fault) Machine α

/-- Breaks off. -/
def broken {α : Type} (fault : Fault) : Run α := throw (.thrown fault)

/-- The error value of a problem. -/
def raise (problem : Problem) : Run Value := step problem.raise

/-! ## What operations demand -/

/-- The name of the type of a value. -/
def typeOf : Value → Run String
  | .absent => broken .noValue
  | v => pure v.typeName

/-- The number that an integer is. -/
def integerOf : Value → Run Int64
  | .integer n => pure n
  | .absent => broken .noValue
  | _ => broken .missingPart

/-- The text of a string. -/
def textOf : Value → Run String
  | .string s => pure s
  | .absent => broken .noValue
  | _ => broken .missingPart

/-- The elements of an array. -/
def elementsOf : Value → Run (List Value)
  | .array _ elements => pure elements
  | .absent => broken .noValue
  | _ => broken .missingPart

/-- The entries of a hash. -/
def entriesOf : Value → Run (Ordered HashKey (Value × Value))
  | .hash _ entries => pure entries
  | .absent => broken .noValue
  | _ => broken .missingPart

/-- The value that an early return carries. -/
def payloadOf : Value → Run Value
  | .returned _ payload => pure payload
  | .absent => broken .noValue
  | _ => broken .missingPart

/-- The text that shows a value: there must be values all through it. -/
def shown (v : Value) : Run String :=
  if v.isWhole then pure v.inspect else broken .noValue

/-- The element of a list with a number. -/
def item (vs : List Value) (i : Nat) : Run Value :=
  match vs[i]? with
  | some v => pure v
  | none => broken .outOfRange

/-- The quotient of two numbers. -/
def quotient (a b : Int) : Run Int :=
  if b = 0 then broken .zeroDivisor else pure (Operator.truncatingDivide a b)

/-- The key that stands for a value.  A string without an encoding stops evaluation, strict or
    not. -/
def keyOf (surrogate? : Text.Surrogates) (v : Value) : Run HashKey :=
  match v.hashKey surrogate? with
  | .ok key => pure key
  | .error (.unencodable error) => throw (.stopped (.noKey (.unencodable error)))
  | .error (.unusable _) => broken .notHashable

/-- Whether the values of a value's type can be keys. -/
def isHashable (v : Value) : Run Bool := do
  let type ← typeOf v
  pure (type = "INTEGER" ∨ type = "BOOLEAN" ∨ type = "STRING")

/-- A value is about to be kept. -/
def keep (v : Value) : Run Unit :=
  if v.isError then broken .errorKept else pure ()

/-- Values are about to be kept. -/
def keepAll (vs : List Value) : Run Unit :=
  if vs.any Value.isError then broken .errorKept else pure ()

/-- A new array. -/
def newArray (vs : List Value) : Run Value := do
  keepAll vs
  step (Machine.newArray vs)

/-! ## Operators -/

/-- A prefix operator. -/
def applyPrefix (operator : String) (right : Value) : Run Value :=
  if operator = "!" then pure (.boolean !right.isTruthy)
  else if operator = "-" then do
    let type ← typeOf right
    if type ≠ "INTEGER" then raise (.unknownPrefix "-" type)
    else
      let n ← integerOf right
      pure (.ofInt (-n.toInt))
  else broken .unknownPrefix

/-- A binary operator on integers: only the quotient demands anything of them. -/
def applyIntegers (operator : String) (a b : Int64) : Run Value :=
  if operator = "/" then
    if b.toInt = 0 then raise .divisionByZero
    else do
      let q ← quotient a.toInt b.toInt
      pure (.ofInt q)
  else step (Operator.applyIntegers operator a b)

/-- A binary operator. -/
def applyBinary (operator : String) (left right : Value) : Run Value := do
  let l ← typeOf left
  let r ← typeOf right
  if l ≠ r then raise (.typeMismatch l operator r)
  else if l = "INTEGER" then
    let a ← integerOf left
    let b ← integerOf right
    applyIntegers operator a b
  else if l = "STRING" then
    if operator ≠ "+" then raise (.notSupported l operator r)
    else
      let s ← textOf left
      let t ← textOf right
      pure (.string (s ++ t))
  else if operator = "==" then pure (.boolean (left.sameObject right))
  else if operator = "!=" then pure (.boolean !left.sameObject right)
  else raise (.unknownBinary l operator r)

/-- The element of an array at an index; `null` outside. -/
def elementAt (array subscript : Value) : Run Value := do
  let elements ← elementsOf array
  let i ← integerOf subscript
  if i < 0 ∨ elements.length ≤ i.toInt then pure .null else item elements i.toInt.toNat

/-- The value of a key of a hash; `null` if there is none. -/
def valueAt (surrogate? : Text.Surrogates) (hash subscript : Value) : Run Value := do
  if !(← isHashable subscript) then raise (.notHashable (← typeOf subscript))
  else
    let entries ← entriesOf hash
    let key ← keyOf surrogate? subscript
    match Ordered.find? key entries with
    | none => pure .null
    | some (_, v) => pure v

/-- An element of an array or the value of a key of a hash. -/
def applyIndex (surrogate? : Text.Surrogates) (left subscript : Value) : Run Value := do
  let type ← typeOf left
  if type = "ARRAY" then
    if (← typeOf subscript) = "INTEGER" then elementAt left subscript
    else raise (.notIndexable type)
  else if type = "HASH" then valueAt surrogate? left subscript
  else raise (.notIndexable type)

/-! ## Builtins -/

/-- What is wrong with the types of arguments, in order. -/
def typeProblem? (function : String) :
    List Value → List (Option String) → Run (Option Problem)
  | v :: vs, some want :: wants => do
    let type ← typeOf v
    if type ≠ want then pure (some (.wrongArgument function want type))
    else typeProblem? function vs wants
  | _ :: vs, none :: wants => typeProblem? function vs wants
  | _, _ => pure none

/-- Checks the number and the types of arguments before it goes on. -/
def checked (function : String) (args : List Value) (wants : List (Option String))
    (next : Run Value) : Run Value :=
  if args.length ≠ wants.length then raise (.wrongArity wants.length args.length)
  else do
    match ← typeProblem? function args wants with
    | some problem => raise problem
    | none => next

/-- Prints values, each on a line. -/
def printAll : List Value → Run Value
  | [] => pure .null
  | v :: rest => do
    let text ← shown v
    step (Machine.write (.printed text))
    printAll rest

/-- The length of a string or an array. -/
def lengthOf (function : String) (v : Value) : Run Value := do
  let type ← typeOf v
  if type = "STRING" then
    let s ← textOf v
    pure (.ofInt s.length)
  else if type = "ARRAY" then
    let elements ← elementsOf v
    pure (.ofInt elements.length)
  else raise (.unsupportedArgument function type)

/-- Calls a builtin. -/
def applyBuiltin (b : Builtin) (args : List Value) : Run Value :=
  match b.action with
  | .puts => printAll args
  | .len => checked b.name args [none] do
    let v ← item args 0
    lengthOf b.name v
  | .first => checked b.name args [some "ARRAY"] do
    let elements ← elementsOf (← item args 0)
    if elements.isEmpty then pure .null else item elements 0
  | .last => checked b.name args [some "ARRAY"] do
    let elements ← elementsOf (← item args 0)
    if elements.isEmpty then pure .null else item elements (elements.length - 1)
  | .rest => checked b.name args [some "ARRAY"] do
    let elements ← elementsOf (← item args 0)
    if elements.isEmpty then pure .null else newArray (elements.drop 1)
  | .push => checked b.name args [some "ARRAY", none] do
    let elements ← elementsOf (← item args 0)
    let v ← item args 1
    newArray (elements ++ [v])
  | .refuse message => raise (.refused message)
  | .fail message => raise (.failed b.name message)
  | .echo => newArray args

/-! ## Trees -/

/-- What the evaluation of a tree is given besides: how to call a function. -/
structure Context extends EvalContext where
  enter : Value → List Value → Run Value

/-- The error that a list of values stands for: an only element that is one. -/
def signalled? : List Value → Option Value
  | [v] => if v.isError then some v else none
  | _ => none

/-- Whether a node is one that leaves no value when all is well: a statement that binds, or a
    program, whose statements may all be such. -/
def leavesNone : Node → Bool
  | .letBinding .. | .program .. => true
  | _ => false

/-- What evaluation leaves for a node. -/
def left (n : Node) (v : Value) : Run Value :=
  if v.isAbsent && !leavesNone n then broken .emptyHanded else pure v

mutual

/-- The value of a node in a frame. -/
def eval (cx : Context) (frame : FrameId) (n : Node) : Run Value := do
  step (Eval.trace cx.tracing n)
  let v ← (match n with
    | .program statements _ => evalProgram cx frame .absent statements
    | .exprStatement expression _ => eval cx frame expression
    | .block statements _ => evalBlock cx frame .absent statements
    | .letBinding name value _ => do
      let v ← eval cx frame value
      if v.isError then pure v
      else
        keep v
        step (Machine.bind frame name.value v)
        pure .absent
    | .returning value _ => do
      let v ← eval cx frame value
      if v.isError then pure v
      else
        keep v
        step (Machine.newReturned v)
    | .integer value _ => pure (.ofInt value)
    | .string value _ => pure (.string value)
    | .boolean value _ => pure (.boolean value)
    | .array elements _ => do
      let vs ← evalAll cx frame [] elements
      match signalled? vs with
      | some e => pure e
      | none => newArray vs
    | .hash pairs _ => do
      match ← evalPairs cx frame [] pairs with
      | .error e => pure e
      | .ok entries => step (Machine.newHash entries)
    | .function parameters body _ => step (Machine.newFunction parameters body frame)
    | .identifier name => step (Eval.valueOfName cx.toEvalContext frame name.value)
    | .prefixed operator right _ => do
      let r ← eval cx frame right
      if r.isError then pure r else applyPrefix operator r
    | .binary left operator right _ => do
      let l ← eval cx frame left
      if l.isError then pure l
      else
        let r ← eval cx frame right
        if r.isError then pure r else applyBinary operator l r
    | .conditional condition consequence alternative _ => do
      let c ← eval cx frame condition
      if c.isError then pure c
      else if c.isTruthy then eval cx frame consequence
      else evalAlternative cx frame alternative
    | .call callee arguments _ => do
      let f ← eval cx frame callee
      if f.isError then pure f
      else
        let vs ← evalAll cx frame [] arguments
        match signalled? vs with
        | some e => pure e
        | none =>
          keepAll vs
          cx.enter f vs
    | .index left subscript _ => do
      let l ← eval cx frame left
      if l.isError then pure l
      else
        let i ← eval cx frame subscript
        if i.isError then pure i else applyIndex cx.surrogate? l i
    | .bare _ => broken .unknownNode : Run Value)
  left n v

/-- The value of the second branch of a conditional, `null` if there is none. -/
def evalAlternative (cx : Context) (frame : FrameId) : Option Node → Run Value
  | none => pure .null
  | some alternative => eval cx frame alternative

/-- The value of top-level statements: that of the last one, or of the first that returns
    or fails. -/
def evalProgram (cx : Context) (frame : FrameId) (last : Value) : List Node → Run Value
  | [] => pure last
  | s :: rest => do
    let v ← eval cx frame s
    if v.isAbsent then evalProgram cx frame v rest
    else
      let type ← typeOf v
      if type = "RETURN_VALUE" then payloadOf v
      else if type = "ERROR" then pure v
      else evalProgram cx frame v rest

/-- The value of the statements of a block: that of the last one, or of the first that
    returns or fails. -/
def evalBlock (cx : Context) (frame : FrameId) (last : Value) : List Node → Run Value
  | [] => pure (if last.isAbsent then .null else last)
  | s :: rest => do
    let v ← eval cx frame s
    if v.isAbsent then evalBlock cx frame v rest
    else
      let type ← typeOf v
      if type = "RETURN_VALUE" ∨ type = "ERROR" then pure v
      else evalBlock cx frame v rest

/-- The values of expressions from left to right, after those read so far, or only the first
    error. -/
def evalAll (cx : Context) (frame : FrameId) (read : List Value) :
    List Node → Run (List Value)
  | [] => pure read
  | n :: rest => do
    let v ← eval cx frame n
    if v.isError then pure [v] else evalAll cx frame (read ++ [v]) rest

/-- The entries of a hash literal after those read so far, or the first error. -/
def evalPairs (cx : Context) (frame : FrameId) (entries : Ordered HashKey (Value × Value)) :
    List (Node × Node) → Run (Except Value (Ordered HashKey (Value × Value)))
  | [] => pure (.ok entries)
  | (keyNode, valueNode) :: rest => do
    let key ← eval cx frame keyNode
    if key.isError then pure (.error key)
    else if !(← isHashable key) then
      let e ← raise (.notHashable (← typeOf key))
      pure (.error e)
    else
      let value ← eval cx frame valueNode
      if value.isError then pure (.error value)
      else
        let hash ← keyOf cx.surrogate? key
        keepAll [key, value]
        evalPairs cx frame (entries.insert hash (key, value)) rest

end

/-- The value that a function body leaves for its caller. -/
def openReturn (v : Value) : Run Value := do
  if (← typeOf v) = "RETURN_VALUE" then payloadOf v else pure v

/-- Calls a value with arguments. -/
def applyFunction (setting : Setting) : Nat → Value → List Value → Run Value
  | depth, .function _ parameters body frame, args =>
    if parameters.length ≠ args.length then
      raise (.wrongArity parameters.length args.length)
    else
      match depth with
      | 0 => throw (.stopped .callDepth)
      | depth + 1 => do
        let inner ← step (Machine.createFrame (some frame))
        step (Eval.bindAll inner parameters args)
        let v ← eval ⟨Eval.contextOfDepth setting depth, applyFunction setting depth⟩ inner body
        openReturn v
  | _, .builtin b, args => applyBuiltin b args
  | _, f, _ => do
    let type ← typeOf f
    if type = "FUNCTION" ∨ type = "BUILTIN" then broken .missingPart
    else raise (.notCallable type)

/-- The value of top-level statements in a frame. -/
def evalStatements (setting : Setting) (frame : FrameId) (statements : List Node) : Run Value :=
  evalProgram ⟨Eval.contextOfDepth setting setting.callLimit,
    applyFunction setting setting.callLimit⟩ frame .absent statements

/-- Runs parsed statements, unless strict evaluation is broken off. -/
def evaluate (s : Session) (statements : List Node) :
    Except Fault (Session.Answer × Session) :=
  let run := evalStatements s.toSetting s.root statements
  match run { s.machine with output := [] } with
  | .ok v m =>
    .ok (⟨.finished v, m.output.reverse⟩, { s with machine := { m with output := [] } })
  | .error (.stopped reason) m =>
    .ok (⟨.stopped reason, m.output.reverse⟩, { s with machine := { m with output := [] } })
  | .error (.thrown fault) _ => .error fault

/-- Runs a source text, unless it has mistakes or strict evaluation is broken off. -/
def run (s : Session) (source : String) :
    Except Numeral.Refusal (Except Fault (Session.Answer × Session)) := do
  let p ← parse source
  let traced := Session.traceLines s.tracing p
  if p.diagnostics.isEmpty then
    pure ((evaluate s p.statements).map fun (answer, t) =>
      (⟨answer.outcome, traced ++ answer.output⟩, t))
  else
    pure (.ok (⟨.rejected p.errors, traced⟩, s))

end Strict

end Monkey
