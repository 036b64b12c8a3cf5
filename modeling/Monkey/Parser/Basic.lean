import Monkey.Node.Text
import Monkey.Parser.Grammar

/-!
# Parsing

Token streams and source texts to programs.  Parsing gives a program in every case but one:
statements with mistakes are left out, and each mistake is reported.  Only an integer
literal that cannot be read at all stops it.
-/

namespace Monkey

/-- What parsing gives: the statements read and what happened, in order. -/
structure Parse where
  statements : List Node
  events : List Parser.Event

namespace Parse

/-- The program read. -/
def program (p : Parse) : Node := .program p.statements none

/-- The mistakes found. -/
def diagnostics (p : Parse) : List Diagnostic :=
  p.events.filterMap Parser.Event.diagnostic?

/-- The messages of the mistakes found. -/
def errors (p : Parse) : List String :=
  p.diagnostics.map Diagnostic.message

/-- The lines of the trace. -/
def trace (p : Parse) : List String :=
  p.events.filterMap Parser.Event.traceLine?

end Parse

namespace Parser

/-- A depth that the rules do not reach on a stream of a given length: between two tokens
    at most a few rules call one another. -/
def depthBound (length : Nat) : Nat := 8 * length + 16

/-- The program of a token stream. -/
def run (stream : TokenStream) : Except Numeral.Refusal Parse :=
  match statements false (depthBound stream.tokens.length) (.ofStream stream) with
  | .ok read s => .ok ⟨read, s.log.reverse⟩
  | .error (.unreadable refusal) _ => .error refusal
  | .error .dropped s => .ok ⟨[], s.log.reverse⟩

end Parser

/-- The program of a source text. -/
def parse (source : String) : Except Numeral.Refusal Parse :=
  Parser.run (.ofSource source)

/-- The program that tokens spell. -/
def parseTokens (tokens : List Token) : Except Numeral.Refusal Parse :=
  Parser.run (.ofTokens tokens)

end Monkey
