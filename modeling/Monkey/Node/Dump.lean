import Monkey.Node.Basic

/-!
# Tree dumps

The outline of a tree: a line per node, indented by depth, with the node's own scalar in
parentheses, and below it the children in the order of the source.
-/

namespace Monkey.Node

/-- The scalar that a node carries, as a dump shows it. -/
def scalar? : Node → Option String
  | identifier name => some (Text.quoted name.value)
  | integer value _ => some (toString value)
  | string value _ => some (Text.quoted value)
  | boolean value _ => some (if value then "True" else "False")
  | prefixed operator _ _ => some (Text.quoted operator)
  | binary _ operator _ _ => some (Text.quoted operator)
  | _ => none

/-- The indentation of a depth. -/
def indentation (depth : Int) : String :=
  String.ofList (List.replicate (2 * depth.toNat) ' ')

/-- The line of a node. -/
def headline (depth : Int) (n : Node) : String :=
  indentation depth ++ n.kindName ++
    (n.scalar?.map fun s => "(" ++ s ++ ")").getD "" ++ "\n"

/-- The lines of names. -/
def dumpNames (depth : Int) : List Name → String
  | [] => ""
  | name :: rest => headline depth (identifier name) ++ dumpNames depth rest

mutual

/-- The outline of a node whose first line stands at a given depth. -/
def dump (depth : Int) : Node → String
  | program statements token =>
    headline depth (program statements token) ++ dumpAll (depth + 1) statements
  | letBinding name value token =>
    headline depth (letBinding name value token) ++ dumpNames (depth + 1) [name] ++
      dump (depth + 1) value
  | returning value token =>
    headline depth (returning value token) ++ dump (depth + 1) value
  | exprStatement expression token =>
    headline depth (exprStatement expression token) ++ dump (depth + 1) expression
  | block statements token =>
    headline depth (block statements token) ++ dumpAll (depth + 1) statements
  | array elements token =>
    headline depth (array elements token) ++ dumpAll (depth + 1) elements
  | hash pairs token => headline depth (hash pairs token) ++ dumpPairs (depth + 1) pairs
  | function parameters body token =>
    headline depth (function parameters body token) ++ dumpNames (depth + 1) parameters ++
      dump (depth + 1) body
  | prefixed operator right token =>
    headline depth (prefixed operator right token) ++ dump (depth + 1) right
  | binary left operator right token =>
    headline depth (binary left operator right token) ++ dump (depth + 1) left ++
      dump (depth + 1) right
  | conditional condition consequence alternative token =>
    headline depth (conditional condition consequence alternative token) ++
      dump (depth + 1) condition ++ dump (depth + 1) consequence ++
      dumpOption (depth + 1) alternative
  | call callee arguments token =>
    headline depth (call callee arguments token) ++ dump (depth + 1) callee ++
      dumpAll (depth + 1) arguments
  | index left subscript token =>
    headline depth (index left subscript token) ++ dump (depth + 1) left ++
      dump (depth + 1) subscript
  | identifier name => headline depth (identifier name)
  | integer value token => headline depth (integer value token)
  | string value token => headline depth (string value token)
  | boolean value token => headline depth (boolean value token)
  | bare family => headline depth (bare family)

/-- The outlines of several nodes at one depth. -/
def dumpAll (depth : Int) : List Node → String
  | [] => ""
  | n :: rest => dump depth n ++ dumpAll depth rest

/-- The outlines of pairs, each key before its value. -/
def dumpPairs (depth : Int) : List (Node × Node) → String
  | [] => ""
  | (key, value) :: rest => dump depth key ++ dump depth value ++ dumpPairs depth rest

/-- The outline of a node that may be missing. -/
def dumpOption (depth : Int) : Option Node → String
  | none => ""
  | some n => dump depth n

end

end Monkey.Node
