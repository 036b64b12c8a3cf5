import Monkey.Token.Basic

/-!
# Diagnostics

What the parser finds wrong with a program: the cause and the token at fault.  The wording
and the position follow from the two.
-/

namespace Monkey

/-- What is wrong at a token. -/
inductive Cause where
  /-- Another kind of token has to stand here. -/
  | unexpected (expected : Kind)
  /-- No expression starts with this token. -/
  | noExpression
  /-- The value of this integer literal does not fit. -/
  | outOfRange
deriving DecidableEq, Repr

/-- A mistake in a program. -/
structure Diagnostic where
  cause : Cause
  token : Token
deriving DecidableEq, Repr

namespace Diagnostic

/-- The message of a mistake. -/
def message (d : Diagnostic) : String :=
  match d.cause with
  | .unexpected expected =>
    "expected next token to be " ++ expected.name ++ ", got " ++ d.token.kind.name ++ " instead"
  | .noExpression => "no prefix parse function for " ++ d.token.kind.name ++ " found"
  | .outOfRange => "could not parse \"" ++ d.token.literal ++ "\" as integer"

/-- The names of the kinds that may stand at the token. -/
def expected (d : Diagnostic) : List String :=
  match d.cause with
  | .unexpected kind => [kind.name]
  | .noExpression | .outOfRange => []

/-- The line that a trace of the parser shows. -/
def traceLine (d : Diagnostic) : String :=
  "Parse error: " ++ d.message ++ " (" ++ d.token.describe ++ ")"

end Diagnostic

end Monkey
