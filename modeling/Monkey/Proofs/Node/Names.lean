import Monkey.Node.Basic

/-!
# Names in trees

Which names occur in a tree, and which of them its let statements bind where the tree is
evaluated.
-/

namespace Monkey.Node

mutual

/-- The names that occur in a tree: those it uses, those it binds and those of parameters. -/
def names : Node → List String
  | program statements _ | block statements _ => namesAll statements
  | letBinding name value _ => name.value :: names value
  | returning value _ | exprStatement value _ | prefixed _ value _ => names value
  | identifier name => [name.value]
  | integer .. | string .. | boolean .. | bare _ => []
  | function parameters body _ => parameters.map Name.value ++ names body
  | array elements _ => namesAll elements
  | hash pairs _ => namesPairs pairs
  | binary left _ right _ | index left right _ => names left ++ names right
  | conditional condition consequence alternative _ =>
    names condition ++ (names consequence ++ namesOption alternative)
  | call callee arguments _ => names callee ++ namesAll arguments

/-- The names that occur in several trees. -/
def namesAll : List Node → List String
  | [] => []
  | n :: rest => names n ++ namesAll rest

/-- The names that occur in pairs of trees. -/
def namesPairs : List (Node × Node) → List String
  | [] => []
  | (key, value) :: rest => names key ++ (names value ++ namesPairs rest)

/-- The names that occur in a tree that may be missing. -/
def namesOption : Option Node → List String
  | none => []
  | some n => names n

end

mutual

/-- The names that let statements of a tree bind, outside of function bodies. -/
def letNames : Node → List String
  | program statements _ | block statements _ => letNamesAll statements
  | letBinding name value _ => name.value :: letNames value
  | returning value _ | exprStatement value _ | prefixed _ value _ => letNames value
  | identifier _ | integer .. | string .. | boolean .. | function .. | bare _ => []
  | array elements _ => letNamesAll elements
  | hash pairs _ => letNamesPairs pairs
  | binary left _ right _ | index left right _ => letNames left ++ letNames right
  | conditional condition consequence alternative _ =>
    letNames condition ++ (letNames consequence ++ letNamesOption alternative)
  | call callee arguments _ => letNames callee ++ letNamesAll arguments

/-- The names that several trees bind. -/
def letNamesAll : List Node → List String
  | [] => []
  | n :: rest => letNames n ++ letNamesAll rest

/-- The names that pairs of trees bind. -/
def letNamesPairs : List (Node × Node) → List String
  | [] => []
  | (key, value) :: rest => letNames key ++ (letNames value ++ letNamesPairs rest)

/-- The names that a tree binds that may be missing. -/
def letNamesOption : Option Node → List String
  | none => []
  | some n => letNames n

end

end Monkey.Node
