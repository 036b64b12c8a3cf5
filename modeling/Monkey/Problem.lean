import Monkey.Machine

/-!
# Problems

What can go wrong while a program runs, and how it is worded.  A problem becomes an error
value, which evaluation hands upward.
-/

namespace Monkey

/-- What went wrong.  Types are given by their names. -/
inductive Problem where
  | typeMismatch (left operator right : String)
  | unknownBinary (left operator right : String)
  | unknownPrefix (operator right : String)
  | notSupported (left operator right : String)
  | divisionByZero
  | wrongArity (want got : Int)
  | unboundName (name : String)
  | notCallable (type : String)
  | notIndexable (type : String)
  | notHashable (type : String)
  | unknownNode (kind : String)
  | wrongArgument (function want got : String)
  | unsupportedArgument (function got : String)
  | refused (message : String)
  | failed (function message : String)
deriving DecidableEq, Repr

namespace Problem

/-- The message of a problem. -/
def message : Problem → String
  | typeMismatch left operator right => "type mismatch: " ++ left ++ " " ++ operator ++ " " ++ right
  | unknownBinary left operator right =>
    "unknown operator: " ++ left ++ " " ++ operator ++ " " ++ right
  | unknownPrefix operator right => "unknown operator: " ++ operator ++ right
  | notSupported left operator right =>
    "operator not supported: " ++ left ++ " " ++ operator ++ " " ++ right
  | divisionByZero => "division by zero"
  | wrongArity want got =>
    "wrong number of arguments. got=" ++ toString got ++ ", want=" ++ toString want
  | unboundName name => "identifier not found: " ++ name
  | notCallable type => "not a function: " ++ type
  | notIndexable type => "index operator not supported: " ++ type
  | notHashable type => "unusable as hash key: " ++ type
  | unknownNode kind => "unknown node type: " ++ kind
  | wrongArgument function want got =>
    "argument to `" ++ function ++ "` must be " ++ want ++ ", got " ++ got
  | unsupportedArgument function got =>
    "argument to `" ++ function ++ "` not supported, got " ++ got
  | refused message => message
  | failed function message => function ++ ": " ++ message

/-- The error value of a problem. -/
def raise (p : Problem) : Run Value := Machine.newError p.message

end Problem

end Monkey
