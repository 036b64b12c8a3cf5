import Monkey.Text.Blank
import Monkey.Node.Basic

/-!
# Printed trees

The text of a tree.  It is a normal form, not the source: every prefix and binary
expression is parenthesised, spacing is fixed, and statements are separated so that
neighbours never fuse.
-/

namespace Monkey

/-- The characters of a string literal for one character of its value. -/
def escapedLiteralChar (c : Char) : List Char :=
  if c = '\\' then ['\\', '\\']
  else if c = '"' then ['\\', '"']
  else if c = '\n' then ['\\', 'n']
  else if c = '\t' then ['\\', 't']
  else if c = '\r' then ['\\', 'r']
  else [c]

/-- A string literal that spells a text. -/
def stringLiteral (s : String) : String :=
  String.ofList ('"' :: (s.toList.flatMap escapedLiteralChar ++ ['"']))

namespace Node

mutual

/-- The printed form of a node. -/
def text : Node → String
  | program statements _ => textStatements statements
  | letBinding name value _ => "let " ++ name.value ++ " = " ++ text value ++ ";"
  | returning value _ => "return " ++ text value ++ ";"
  | exprStatement expression _ => text expression
  | block [] _ => "\x7b \x7d"
  | block (s :: rest) _ => "\x7b " ++ textStatements (s :: rest) ++ " \x7d"
  | identifier name => name.value
  | integer value _ => toString value
  | string value _ => stringLiteral value
  | boolean value _ => if value then "true" else "false"
  | array elements _ => "[" ++ Text.joined ", " (texts elements) ++ "]"
  | hash pairs _ => "\x7b" ++ Text.joined ", " (pairTexts pairs) ++ "\x7d"
  | function parameters body _ =>
    "fn(" ++ Text.joined ", " (parameters.map Name.value) ++ ") " ++ text body
  | prefixed operator right _ => "(" ++ operator ++ text right ++ ")"
  | binary left operator right _ =>
    "(" ++ text left ++ " " ++ operator ++ " " ++ text right ++ ")"
  | conditional condition consequence alternative _ =>
    "if (" ++ text condition ++ ") " ++ text consequence ++ textAlternative alternative
  | call callee arguments _ => text callee ++ "(" ++ Text.joined ", " (texts arguments) ++ ")"
  | index left subscript _ => "(" ++ text left ++ "[" ++ text subscript ++ "])"
  | bare family => family.name

/-- Statements in a row.  A bare expression before another statement ends in a
    semicolon. -/
def textStatements : List Node → String
  | [] => ""
  | s :: rest =>
    text s ++ (if s.isExprStatement && !rest.isEmpty then ";" else "") ++
      (if rest.isEmpty then "" else " ") ++ textStatements rest

/-- The printed forms of several nodes. -/
def texts : List Node → List String
  | [] => []
  | n :: rest => text n :: texts rest

/-- The printed forms of the pairs of a hash literal. -/
def pairTexts : List (Node × Node) → List String
  | [] => []
  | (key, value) :: rest => (text key ++ ": " ++ text value) :: pairTexts rest

/-- The second branch of a conditional. -/
def textAlternative : Option Node → String
  | none => ""
  | some alternative => " else " ++ text alternative

end

end Node

end Monkey
