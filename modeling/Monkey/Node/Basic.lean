import Monkey.Token.Basic

/-!
# Syntax trees

The nodes of a program, statements and expressions alike.  A node keeps the token it was
read from; nodes built by hand may have none.  The parser puts statements, expressions and
blocks where they belong, but the type itself allows any node in any place, and every
operation on trees is defined for all of them.
-/

namespace Monkey

/-- A name that is bound or used, with its token. -/
structure Name where
  value : String
  token : Option Token := none
deriving DecidableEq, Repr

/-- The families of nodes, for a node of which no more is known. -/
inductive Family where
  | node
  | statement
  | expression
deriving DecidableEq, Repr

/-- The name of a family. -/
def Family.name : Family → String
  | node => "Node"
  | statement => "Statement"
  | expression => "Expression"

/-- A node of a syntax tree.  Operators are kept as they are written. -/
inductive Node where
  | program (statements : List Node) (token : Option Token)
  | letBinding (name : Name) (value : Node) (token : Option Token)
  | returning (value : Node) (token : Option Token)
  | exprStatement (expression : Node) (token : Option Token)
  | block (statements : List Node) (token : Option Token)
  | identifier (name : Name)
  | integer (value : Int) (token : Option Token)
  | string (value : String) (token : Option Token)
  | boolean (value : Bool) (token : Option Token)
  | array (elements : List Node) (token : Option Token)
  | hash (pairs : List (Node × Node)) (token : Option Token)
  | function (parameters : List Name) (body : Node) (token : Option Token)
  | prefixed (operator : String) (right : Node) (token : Option Token)
  | binary (left : Node) (operator : String) (right : Node) (token : Option Token)
  | conditional (condition consequence : Node) (alternative : Option Node)
      (token : Option Token)
  | call (function : Node) (arguments : List Node) (token : Option Token)
  | index (left subscript : Node) (token : Option Token)
  | bare (family : Family)
deriving Repr

namespace Node

/-- The kind of a node, as dumps and traces show it. -/
def kindName : Node → String
  | program .. => "Program"
  | letBinding .. => "LetStatement"
  | returning .. => "ReturnStatement"
  | exprStatement .. => "ExpressionStatement"
  | block .. => "BlockStatement"
  | identifier .. => "Identifier"
  | integer .. => "IntegerLiteral"
  | string .. => "StringLiteral"
  | boolean .. => "Boolean"
  | array .. => "ArrayLiteral"
  | hash .. => "HashLiteral"
  | function .. => "FunctionLiteral"
  | prefixed .. => "PrefixExpression"
  | binary .. => "InfixExpression"
  | conditional .. => "IfExpression"
  | call .. => "CallExpression"
  | index .. => "IndexExpression"
  | bare family => family.name

/-- The token that a node was read from. -/
def token? : Node → Option Token
  | program _ token | letBinding _ _ token | returning _ token | exprStatement _ token
  | block _ token | integer _ token | string _ token | boolean _ token | array _ token
  | hash _ token | function _ _ token | prefixed _ _ token | binary _ _ _ token
  | conditional _ _ _ token | call _ _ token | index _ _ token => token
  | identifier name => name.token
  | bare _ => none

/-- The literal of the token that a node was read from. -/
def tokenLiteral (n : Node) : String :=
  (n.token?.map Token.literal).getD ""

/-- A bare expression used as a statement. -/
def isExprStatement : Node → Bool
  | exprStatement .. => true
  | _ => false

/-- The statements of a program or block. -/
def statements : Node → List Node
  | program statements _ | block statements _ => statements
  | _ => []

end Node

end Monkey
