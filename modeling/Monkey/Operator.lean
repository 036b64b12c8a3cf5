import Monkey.Problem

/-!
# Operators

Prefix and binary operators and indexing, on values.  Arithmetic is done with numbers of any
size, and what it comes to is wrapped to 64 bits.
-/

namespace Monkey.Operator

/-- Stops if there is no value. -/
def demand (v : Value) : Run Unit :=
  if v.isAbsent then throw .absentOperand else pure ()

/-- A prefix operator. -/
def applyPrefix (operator : String) (right : Value) : Run Value := do
  if operator = "!" then pure (.boolean !right.isTruthy)
  else
    demand right
    if operator = "-" then
      match right with
      | .integer n => pure (.ofInt (-n.toInt))
      | _ => (Problem.unknownPrefix "-" right.typeName).raise
    else (Problem.unknownPrefix operator right.typeName).raise

/-- Division towards zero: the quotient of the magnitudes, negated where the signs differ. -/
def truncatingDivide (dividend divisor : Int) : Int :=
  let quotient : Int := dividend.natAbs / divisor.natAbs
  if decide (dividend < 0) != decide (divisor < 0) then -quotient else quotient

/-- A binary operator on integers. -/
def applyIntegers (operator : String) (a b : Int64) : Run Value :=
  match operator with
  | "+" => pure (.ofInt (a.toInt + b.toInt))
  | "-" => pure (.ofInt (a.toInt - b.toInt))
  | "*" => pure (.ofInt (a.toInt * b.toInt))
  | "/" =>
    if b.toInt = 0 then Problem.divisionByZero.raise
    else pure (.ofInt (truncatingDivide a.toInt b.toInt))
  | "<" => pure (.boolean (decide (a.toInt < b.toInt)))
  | ">" => pure (.boolean (decide (b.toInt < a.toInt)))
  | "==" => pure (.boolean (a.toInt == b.toInt))
  | "!=" => pure (.boolean (a.toInt != b.toInt))
  | _ => (Problem.unknownBinary "INTEGER" operator "INTEGER").raise

/-- A binary operator.  Values of the types without operators of their own are equal when
    they are one object. -/
def applyBinary (operator : String) (left right : Value) : Run Value := do
  demand left
  demand right
  if left.typeName ≠ right.typeName then
    (Problem.typeMismatch left.typeName operator right.typeName).raise
  else
    match left, right with
    | .integer a, .integer b => applyIntegers operator a b
    | .string s, .string t =>
      if operator = "+" then pure (.string (s ++ t))
      else (Problem.notSupported "STRING" operator "STRING").raise
    | _, _ =>
      if operator = "==" then pure (.boolean (left.sameObject right))
      else if operator = "!=" then pure (.boolean !left.sameObject right)
      else (Problem.unknownBinary left.typeName operator right.typeName).raise

/-- The element of a list at an integer index; `null` outside. -/
def elementAt (elements : List Value) (i : Int64) : Value :=
  if i < 0 then .null else (elements[i.toInt.toNat]?).getD .null

/-- The key of a value; stops if it has none. -/
def keyOf (surrogate? : Text.Surrogates) (v : Value) : Run HashKey :=
  match v.hashKey surrogate? with
  | .ok key => pure key
  | .error refusal => throw (.noKey refusal)

/-- An element of an array or the value of a key of a hash. -/
def applyIndex (surrogate? : Text.Surrogates) (left right : Value) : Run Value := do
  demand left
  match left with
  | .array _ elements =>
    demand right
    match right with
    | .integer i => pure (elementAt elements i)
    | _ => (Problem.notIndexable left.typeName).raise
  | .hash _ entries =>
    demand right
    if right.isHashable then
      let key ← keyOf surrogate? right
      pure (((Ordered.find? key entries).map Prod.snd).getD .null)
    else (Problem.notHashable right.typeName).raise
  | _ => (Problem.notIndexable left.typeName).raise

end Monkey.Operator
