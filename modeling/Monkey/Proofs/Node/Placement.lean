import Monkey.Proofs.Node.Discipline
import Monkey.Proofs.Parser.Shape

/-!
# Where return statements stand

Trees in which a conditional with a return statement in one of its branches stands as a
statement: it is the whole expression of an expression statement.  In such trees no return
statement ends the evaluation of an expression that is part of another.
-/

namespace Monkey

namespace Node

mutual

/-- Whether a tree has a return statement, outside of function bodies. -/
def hasReturn : Node → Bool
  | returning .. => true
  | program statements _ | block statements _ => anyHasReturn statements
  | letBinding _ value _ | exprStatement value _ | prefixed _ value _ => hasReturn value
  | identifier _ | integer .. | string .. | boolean .. | function .. | bare _ => false
  | array elements _ => anyHasReturn elements
  | hash pairs _ => pairsHaveReturn pairs
  | binary left _ right _ | index left right _ => hasReturn left || hasReturn right
  | conditional condition consequence alternative _ =>
    hasReturn condition || (hasReturn consequence || alternativeHasReturn alternative)
  | call callee arguments _ => hasReturn callee || anyHasReturn arguments

/-- Whether one of several trees has a return statement. -/
def anyHasReturn : List Node → Bool
  | [] => false
  | n :: rest => hasReturn n || anyHasReturn rest

/-- Whether one of several pairs of trees has a return statement. -/
def pairsHaveReturn : List (Node × Node) → Bool
  | [] => false
  | (key, value) :: rest => (hasReturn key || hasReturn value) || pairsHaveReturn rest

/-- Whether a tree that may be missing has a return statement. -/
def alternativeHasReturn : Option Node → Bool
  | none => false
  | some n => hasReturn n

end

mutual

/-- Whether each conditional of a tree that has a return statement in one of its branches is
    the whole expression of an expression statement, in function bodies too. -/
def inPlace : Node → Bool
  | exprStatement (conditional condition consequence alternative _) _ =>
    inPlace condition && (inPlace consequence && alternativeInPlace alternative)
  | conditional condition consequence alternative _ =>
    (inPlace condition && (inPlace consequence && alternativeInPlace alternative)) &&
      !(hasReturn consequence || alternativeHasReturn alternative)
  | program statements _ | block statements _ => allInPlace statements
  | letBinding _ value _ | returning value _ | exprStatement value _ | prefixed _ value _ =>
    inPlace value
  | identifier _ | integer .. | string .. | boolean .. | bare _ => true
  | array elements _ => allInPlace elements
  | hash pairs _ => pairsInPlace pairs
  | function _ body _ => inPlace body
  | binary left _ right _ | index left right _ => inPlace left && inPlace right
  | call callee arguments _ => inPlace callee && allInPlace arguments

/-- Whether the conditionals of several trees are in place. -/
def allInPlace : List Node → Bool
  | [] => true
  | n :: rest => inPlace n && allInPlace rest

/-- Whether the conditionals of several pairs of trees are in place. -/
def pairsInPlace : List (Node × Node) → Bool
  | [] => true
  | (key, value) :: rest => (inPlace key && inPlace value) && pairsInPlace rest

/-- Whether the conditionals of a tree that may be missing are in place. -/
def alternativeInPlace : Option Node → Bool
  | none => true
  | some n => inPlace n

end

/-- Whether the conditionals of a tree are in place, where the tree itself stands as a
    statement. -/
def partsInPlace : Node → Bool
  | conditional condition consequence alternative _ =>
    inPlace condition && (inPlace consequence && alternativeInPlace alternative)
  | n => inPlace n

theorem inPlace_exprStatement (e : Node) (t : Option Token) :
    (exprStatement e t).inPlace = e.partsInPlace := by
  cases e <;> rw [inPlace, partsInPlace] <;> simp

theorem partsInPlace_of_inPlace {n : Node} (h : n.inPlace) : n.partsInPlace := by
  cases n with
  | conditional =>
    rw [inPlace, Bool.and_eq_true] at h
    exact h.1
  | _ => exact h

mutual

/-- What may end by a return statement has one. -/
theorem hasReturn_of_mayReturn : (n : Node) → n.mayReturn → n.hasReturn
  | returning .., _ => by rw [hasReturn]
  | exprStatement e _, h => by
    rw [mayReturn] at h
    rw [hasReturn]
    exact hasReturn_of_mayReturn e h
  | block ss _, h => by
    rw [mayReturn] at h
    rw [hasReturn]
    exact anyHasReturn_of_anyMayReturn ss h
  | conditional c t a _, h => by
    rw [mayReturn, Bool.or_eq_true] at h
    rw [hasReturn, Bool.or_eq_true, Bool.or_eq_true]
    refine .inr (h.imp (hasReturn_of_mayReturn t) fun ha => ?_)
    cases a with
    | none => cases ha
    | some n => exact hasReturn_of_mayReturn n ha
  | program .., h | letBinding .., h | identifier _, h | integer .., h | string .., h
  | boolean .., h | array .., h | hash .., h | function .., h | prefixed .., h | binary .., h
  | call .., h | index .., h | bare _, h => by cases h

theorem anyHasReturn_of_anyMayReturn : (ns : List Node) → anyMayReturn ns → anyHasReturn ns
  | [], h => by cases h
  | n :: ns, h => by
    rw [anyMayReturn, Bool.or_eq_true] at h
    rw [anyHasReturn, Bool.or_eq_true]
    exact h.imp (hasReturn_of_mayReturn n) (anyHasReturn_of_anyMayReturn ns)

end

/-- No return statement ends an expression that is part of another. -/
theorem mayReturn_eq_false {e : Node} (hfits : Grammar.Fits .expression e) (h : e.inPlace) :
    e.mayReturn = false := by
  cases hfits with
  | conditional _ _ _ =>
    rename_i c d a t _ _ _
    rw [inPlace, Bool.and_eq_true, Bool.not_eq_true', Bool.or_eq_false_iff] at h
    rw [mayReturn, Bool.or_eq_false_iff]
    refine ⟨?_, ?_⟩
    · exact Bool.eq_false_iff.mpr fun hd =>
        Bool.eq_false_iff.mp h.2.1 (hasReturn_of_mayReturn d hd)
    · cases a with
      | none => rfl
      | some n =>
        exact Bool.eq_false_iff.mpr fun hn =>
          Bool.eq_false_iff.mp h.2.2 (hasReturn_of_mayReturn n hn)
  | _ => rfl

end Node

end Monkey
