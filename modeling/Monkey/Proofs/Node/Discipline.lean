import Monkey.Node.Basic

/-!
# Disciplined trees

Trees in which return statements stand as statements only: none is within an expression,
outside of function bodies, whose value is bound, returned again, stored or passed on.
-/

namespace Monkey.Node

mutual

/-- Whether a return statement may end the evaluation of a tree.  Operands, arguments and
    conditions do not count, since what ends them does not end the tree. -/
def mayReturn : Node → Bool
  | returning .. => true
  | exprStatement expression _ => mayReturn expression
  | block statements _ => anyMayReturn statements
  | conditional _ consequence alternative _ =>
    mayReturn consequence || alternativeMayReturn alternative
  | _ => false

/-- Whether a return statement may end the evaluation of one of several trees. -/
def anyMayReturn : List Node → Bool
  | [] => false
  | n :: rest => mayReturn n || anyMayReturn rest

/-- Whether a return statement may end the evaluation of a tree that may be missing. -/
def alternativeMayReturn : Option Node → Bool
  | none => false
  | some n => mayReturn n

end

mutual

/-- Whether no return statement in a tree may end an expression whose value is bound,
    returned again, stored in an array or a hash, or passed as an argument. -/
def disciplined : Node → Bool
  | program statements _ | block statements _ => allDisciplined statements
  | letBinding _ value _ | returning value _ => disciplined value && !value.mayReturn
  | exprStatement expression _ => disciplined expression
  | identifier _ | integer .. | string .. | boolean .. | bare _ => true
  | array elements _ => allSettled elements
  | hash pairs _ => pairsSettled pairs
  | function _ body _ => disciplined body
  | prefixed _ right _ => disciplined right
  | binary left _ right _ | index left right _ => disciplined left && disciplined right
  | conditional condition consequence alternative _ =>
    disciplined condition && (disciplined consequence && alternativeDisciplined alternative)
  | call callee arguments _ => disciplined callee && allSettled arguments

/-- Whether several trees are disciplined. -/
def allDisciplined : List Node → Bool
  | [] => true
  | n :: rest => disciplined n && allDisciplined rest

/-- Whether several trees are disciplined and none may end by a return statement. -/
def allSettled : List Node → Bool
  | [] => true
  | n :: rest => (disciplined n && !n.mayReturn) && allSettled rest

/-- Whether pairs of trees are disciplined and no second one may end by a return
    statement. -/
def pairsSettled : List (Node × Node) → Bool
  | [] => true
  | (key, value) :: rest =>
    (disciplined key && (disciplined value && !value.mayReturn)) && pairsSettled rest

/-- Whether a tree that may be missing is disciplined. -/
def alternativeDisciplined : Option Node → Bool
  | none => true
  | some n => disciplined n

end

end Monkey.Node
