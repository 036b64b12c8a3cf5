import Monkey.Diagnostic
import Monkey.Node.Basic
import Monkey.Numeral
import Monkey.Runs
import Monkey.Token.Scanner

/-!
# Parser state

What the grammar rules work on: a cursor over a token stream and a log.  A rule that cannot
go on reports a diagnostic and drops the statement being read.
-/

namespace Monkey

/-- Tokens to parse.  Past the last one comes the end of the input, at a given position,
    as often as it is asked for. -/
structure TokenStream where
  tokens : List Token
  endLine : Int := 0
  endColumn : Int := 0
deriving Repr

namespace TokenStream

/-- The tokens of a source text. -/
def ofSource (source : String) : TokenStream :=
  let last := endOfSource source
  { tokens := scan source, endLine := last.line, endColumn := last.column }

/-- Tokens without a source text. -/
def ofTokens (tokens : List Token) : TokenStream := { tokens }

end TokenStream

namespace Parser

/-- The rules that a trace of the parser names. -/
inductive Rule where
  | letStatement
  | returnStatement
  | exprStatement
  | block
  | prefixed
  | binary
  | conditional
  | function
  | call
  | index
  | hash
deriving DecidableEq, Repr

/-- The name of a rule. -/
def Rule.name : Rule → String
  | letStatement => "let statement"
  | returnStatement => "return statement"
  | exprStatement => "expression statement"
  | block => "block statement"
  | prefixed => "prefix expression"
  | binary => "infix expression"
  | conditional => "if expression"
  | function => "function literal"
  | call => "call expression"
  | index => "index expression"
  | hash => "hash literal"

/-- What happens while tokens are parsed.  Positions count the tokens before. -/
inductive Event where
  /-- A rule was taken up at a token. -/
  | began (rule : Rule) (token : Token)
  /-- A mistake was found. -/
  | reported (diagnostic : Diagnostic)
  /-- A statement was taken up. -/
  | attempted (position : Nat)
  /-- The statement taken up at a position was given up. -/
  | dropped (position : Nat)
deriving DecidableEq, Repr

/-- The line that a trace shows for an event, if any. -/
def Event.traceLine? : Event → Option String
  | began rule token => some ("Parsing: " ++ rule.name ++ " at " ++ token.describe)
  | reported diagnostic => some diagnostic.traceLine
  | attempted _ | dropped _ => none

/-- The mistake that an event reports, if any. -/
def Event.diagnostic? : Event → Option Diagnostic
  | reported diagnostic => some diagnostic
  | _ => none

/-- The cursor and the log.  The current token is the first of `rest`; `passed` counts
    the tokens before it; the log holds the newest event first. -/
structure State where
  rest : List Token
  endLine : Int
  endColumn : Int
  passed : Nat := 0
  log : List Event := []

namespace State

/-- The start of a stream. -/
def ofStream (s : TokenStream) : State :=
  { rest := s.tokens, endLine := s.endLine, endColumn := s.endColumn }

/-- The end of the input. -/
def final (s : State) : Token :=
  ⟨.eof, "", s.endLine, s.endColumn⟩

/-- The current token. -/
def current (s : State) : Token :=
  s.rest.headD s.final

/-- The token after the current one. -/
def upcoming (s : State) : Token :=
  s.rest.tail.headD s.final

/-- The state with the next token as the current one. -/
def advance (s : State) : State :=
  { s with rest := s.rest.tail, passed := s.passed + 1 }

/-- The state with one more event in the log. -/
def note (s : State) (e : Event) : State :=
  { s with log := e :: s.log }

@[simp] theorem advance_rest (s : State) : s.advance.rest = s.rest.tail := rfl

@[simp] theorem advance_log (s : State) : s.advance.log = s.log := rfl

@[simp] theorem advance_passed (s : State) : s.advance.passed = s.passed + 1 := rfl

@[simp] theorem advance_current (s : State) : s.advance.current = s.upcoming := rfl

@[simp] theorem note_rest (s : State) (e : Event) : (s.note e).rest = s.rest := rfl

@[simp] theorem note_log (s : State) (e : Event) : (s.note e).log = e :: s.log := rfl

@[simp] theorem note_passed (s : State) (e : Event) : (s.note e).passed = s.passed := rfl

@[simp] theorem note_current (s : State) (e : Event) : (s.note e).current = s.current := rfl

@[simp] theorem note_upcoming (s : State) (e : Event) : (s.note e).upcoming = s.upcoming := rfl

end State

/-- Why a rule does not give a node. -/
inductive Failure where
  /-- The statement being read is given up. -/
  | dropped
  /-- An integer literal cannot be read, and with it the whole input. -/
  | unreadable (refusal : Numeral.Refusal)
deriving DecidableEq, Repr

/-- A step of the parser. -/
abbrev Action (α : Type) := EStateM Failure State α

/-- The current token. -/
def current : Action Token := fun s => .ok s.current s

/-- The token after the current one. -/
def upcoming : Action Token := fun s => .ok s.upcoming s

/-- Moves on to the next token. -/
def advance : Action Unit := fun s => .ok () s.advance

/-- Notes that a rule is taken up at the current token, which is returned. -/
def begin (rule : Rule) : Action Token := fun s =>
  .ok s.current (s.note (.began rule s.current))

/-- Reports a mistake and gives the statement up. -/
def fail {α : Type} (cause : Cause) (token : Token) : Action α := fun s =>
  .error .dropped (s.note (.reported ⟨cause, token⟩))

/-- Moves on to the next token if it is of the given kind, and fails otherwise. -/
def expect (kind : Kind) : Action Unit := do
  let next ← upcoming
  if next.kind = kind then advance else fail (.unexpected kind) next

/-- Moves on to the next token if it is of the given kind. -/
def skip (kind : Kind) : Action Unit := do
  let next ← upcoming
  if next.kind = kind then advance

/-- Runs a rule for a statement.  If the statement is given up there is none, and parsing
    goes on from the token reached. -/
def attempt (rule : Action Node) : Action (Option Node) := fun s =>
  match rule (s.note (.attempted s.passed)) with
  | .ok node t => .ok (some node) t
  | .error .dropped t => .ok none (t.note (.dropped s.passed))
  | .error e t => .error e t

section Running

variable {β : Type}

@[simp] theorem current_bind_run (f : Token → Action β) (s : State) :
    (current >>= f) s = f s.current s := rfl

@[simp] theorem upcoming_bind_run (f : Token → Action β) (s : State) :
    (upcoming >>= f) s = f s.upcoming s := rfl

@[simp] theorem advance_bind_run (f : Unit → Action β) (s : State) :
    (advance >>= f) s = f () s.advance := rfl

@[simp] theorem begin_bind_run (rule : Rule) (f : Token → Action β) (s : State) :
    (begin rule >>= f) s = f s.current (s.note (.began rule s.current)) := rfl

theorem expect_run (kind : Kind) (s : State) :
    expect kind s =
      if s.upcoming.kind = kind then .ok () s.advance
      else .error .dropped (s.note (.reported ⟨.unexpected kind, s.upcoming⟩)) := by
  unfold expect
  rw [upcoming_bind_run]
  split <;> rfl

theorem skip_run (kind : Kind) (s : State) :
    skip kind s = if s.upcoming.kind = kind then .ok () s.advance else .ok () s := by
  unfold skip
  rw [upcoming_bind_run]
  split <;> rfl

end Running

end Parser

end Monkey
