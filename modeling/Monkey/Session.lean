import Monkey.Eval.Basic
import Monkey.Parser.Basic

/-!
# Sessions

Programs run one after another on one machine.  A program with mistakes is not run at all;
bindings made at top level stay for the programs that follow.
-/

namespace Monkey

/-- The value of top-level statements in a frame. -/
def evalStatements (setting : Setting) (frame : FrameId) (statements : List Node) : Run Value :=
  Eval.evalProgram (Eval.contextOfDepth setting setting.callLimit) frame .absent statements

/-- How a run on a machine ends, with the lines written meanwhile, the oldest first. -/
structure Performance where
  result : Except Stop Value
  output : List OutputLine
  machine : Machine

/-- Runs on a machine and collects what is written. -/
def Machine.perform (m : Machine) (run : Run Value) : Performance :=
  match run { m with output := [] } with
  | .ok v m => ⟨.ok v, m.output.reverse, { m with output := [] }⟩
  | .error e m => ⟨.error e, m.output.reverse, { m with output := [] }⟩

/-- A machine on which programs run one after another. -/
structure Session extends Setting where
  machine : Machine
  root : FrameId

/-- What nothing catches, so that it ends whatever runs the session. -/
inductive Crash where
  /-- An integer literal cannot be read. -/
  | unreadable (refusal : Numeral.Refusal)
  /-- Evaluation cannot go on. -/
  | stopped (reason : Stop)
deriving DecidableEq, Repr

/-- The message of what nothing catches. -/
def Crash.message : Crash → String
  | unreadable refusal => refusal.message
  | stopped reason => reason.message

namespace Session

/-- A session with nothing bound. -/
def start (setting : Setting) : Session :=
  let (heap, root) := Heap.empty.create none
  { setting with machine := { heap }, root }

/-- How a program ends. -/
inductive Outcome where
  /-- The program has mistakes and did not run. -/
  | rejected (errors : List String)
  /-- The program ran; the result is absent if it left no value. -/
  | finished (result : Value)
  /-- The program could not go on. -/
  | stopped (reason : Stop)

/-- What a session answers to a program. -/
structure Answer where
  outcome : Outcome
  output : List OutputLine

/-- The lines of a parse that belong to a trace. -/
def traceLines (tracing : Bool) (p : Parse) : List OutputLine :=
  if tracing then p.trace.map .traced else []

/-- Runs parsed statements. -/
def evaluate (s : Session) (statements : List Node) : Answer × Session :=
  let done := s.machine.perform (evalStatements s.toSetting s.root statements)
  let outcome := match done.result with
    | .ok v => Outcome.finished v
    | .error e => Outcome.stopped e
  (⟨outcome, done.output⟩, { s with machine := done.machine })

/-- Runs a source text, unless it has mistakes. -/
def run (s : Session) (source : String) : Except Numeral.Refusal (Answer × Session) := do
  let p ← parse source
  let traced := traceLines s.tracing p
  if p.diagnostics.isEmpty then
    let (answer, s) := s.evaluate p.statements
    pure (⟨answer.outcome, traced ++ answer.output⟩, s)
  else
    pure (⟨.rejected p.errors, traced⟩, s)

/-- The top-level bindings in the order in which they were first made. -/
def bindings (s : Session) : List (String × Value) :=
  s.machine.heap.bindings s.root

end Session

end Monkey
