import Monkey.Problem
import Monkey.Value.Inspect

/-!
# Builtin functions

The functions that programs find without defining them.  Whatever goes wrong in a builtin
becomes an error value.
-/

namespace Monkey.Builtin

/-- The builtins of the language. -/
def standard : List Builtin :=
  [⟨"puts", .puts⟩, ⟨"len", .len⟩, ⟨"first", .first⟩, ⟨"last", .last⟩, ⟨"rest", .rest⟩,
    ⟨"push", .push⟩]

/-- The builtin of a name in a table. -/
def find? (table : List Builtin) (name : String) : Option Builtin :=
  table.find? fun b => b.name == name

/-- The table with a builtin, in the place of one of the same name if there is one. -/
def register (b : Builtin) : List Builtin → List Builtin
  | [] => [b]
  | c :: rest => if c.name = b.name then b :: rest else c :: register b rest

/-- The names of a table in alphabetical order. -/
def names (table : List Builtin) : List String :=
  (table.map Builtin.name).mergeSort fun s t => s ≤ t

/-- Checks the types of arguments, in order. -/
def checkTypes (function : String) : List Value → List (Option String) → Except Problem Unit
  | v :: vs, some want :: wants =>
    if v.isAbsent then .error (.failed function absentMessage)
    else if v.typeName ≠ want then .error (.wrongArgument function want v.typeName)
    else checkTypes function vs wants
  | _ :: vs, none :: wants => checkTypes function vs wants
  | _, _ => .ok ()

/-- Checks the number and the types of arguments; any type may stand where none is
    given. -/
def check (function : String) (args : List Value) (wants : List (Option String)) :
    Except Problem Unit :=
  if args.length ≠ wants.length then .error (.wrongArity wants.length args.length)
  else checkTypes function args wants

/-- The elements of the array that is the first of some arguments, if the arguments
    check. -/
def arrayArgument (function : String) (args : List Value) (wants : List (Option String)) :
    Except Problem (List Value) :=
  match check function args wants, args with
  | .error p, _ => .error p
  | .ok (), .array _ elements :: _ => .ok elements
  | .ok (), _ => .ok []

/-- Prints values, each on a line, up to one that cannot be shown. -/
def printAll (function : String) : List Value → Run Value
  | [] => pure .null
  | v :: rest =>
    if v.isWhole then do
      Machine.write (.printed v.inspect)
      printAll function rest
    else (Problem.failed function absentMessage).raise

/-- The length of a string or an array. -/
def lengthOf (function : String) (args : List Value) : Run Value :=
  match check function args [none], args with
  | .error p, _ => p.raise
  | .ok (), .string s :: _ => pure (.ofInt s.length)
  | .ok (), .array _ elements :: _ => pure (.ofInt elements.length)
  | .ok (), .absent :: _ => (Problem.failed function absentMessage).raise
  | .ok (), v :: _ => (Problem.unsupportedArgument function v.typeName).raise
  | .ok (), [] => pure .null

/-- Calls a builtin. -/
def apply (b : Builtin) (args : List Value) : Run Value :=
  match b.action with
  | .puts => printAll b.name args
  | .len => lengthOf b.name args
  | .first =>
    match arrayArgument b.name args [some "ARRAY"] with
    | .error p => p.raise
    | .ok elements => pure (elements.head?.getD .null)
  | .last =>
    match arrayArgument b.name args [some "ARRAY"] with
    | .error p => p.raise
    | .ok elements => pure (elements.getLast?.getD .null)
  | .rest =>
    match arrayArgument b.name args [some "ARRAY"] with
    | .error p => p.raise
    | .ok [] => pure .null
    | .ok (_ :: rest) => Machine.newArray rest
  | .push =>
    match arrayArgument b.name args [some "ARRAY", none] with
    | .error p => p.raise
    | .ok elements => Machine.newArray (elements ++ args.drop 1)
  | .refuse message => (Problem.refused message).raise
  | .fail message => (Problem.failed b.name message).raise
  | .echo => Machine.newArray args

end Monkey.Builtin
