import Mathlib.Data.BitVec
import Monkey.Operator

/-!
# Integer operators

Operators on integers compute with numbers of any size and wrap what they come to.  That is
arithmetic of signed words of 64 bits: wrapping a number is reading its lowest 64 bits, and the
division of magnitudes with a sign of its own is the division of signed words.
-/

namespace Monkey

namespace Value

/-- What is left of a number in 64 bits is its balanced remainder. -/
theorem toInt64_eq_bmod (n : Int) : toInt64 n = n.bmod Int64.size := by
  rw [toInt64, Int.bmod_def, show (Int64.size : Int) = 0x10000000000000000 from rfl]
  split <;> split <;> omega

/-- A number wraps to the integer whose value is its balanced remainder. -/
theorem ofInt_eq_of_toInt {n : Int} {a : Int64} (h : a.toInt = n.bmod Int64.size) :
    ofInt n = .integer a := by
  refine congrArg integer (Int64.toInt_inj.mp ?_)
  rw [Int64.toInt_ofIntLE, toInt64_eq_bmod, h]

theorem ofInt_eq (n : Int) : ofInt n = .integer (.ofInt n) :=
  ofInt_eq_of_toInt Int64.toInt_ofInt

end Value

namespace Operator

/-- Dividing magnitudes, and negating the quotient where the signs differ, is to divide towards
    zero. -/
theorem truncatingDivide_eq_tdiv (a b : Int) : truncatingDivide a b = a.tdiv b := by
  have hpos (n : Nat) : decide (Int.ofNat n < 0) = false :=
    decide_eq_false (Int.not_lt.mpr (Int.natCast_nonneg n))
  have hneg (n : Nat) : decide (Int.negSucc n < 0) = true :=
    decide_eq_true (Int.negSucc_lt_zero n)
  unfold truncatingDivide
  cases a with
  | ofNat m =>
    cases b with
    | ofNat n => rw [hpos, hpos]; rfl
    | negSucc n => rw [hpos, hneg]; rfl
  | negSucc m =>
    cases b with
    | ofNat n => rw [hneg, hpos]; rfl
    | negSucc n => rw [hneg, hneg]; rfl

variable (a b : Int64)

theorem applyPrefix_minus : applyPrefix "-" (.integer a) = pure (.integer (-a)) := by
  have hneg : Value.ofInt (-a.toInt) = .integer (-a) := Value.ofInt_eq_of_toInt a.toInt_neg
  rw [← hneg]
  rfl

theorem applyIntegers_plus : applyIntegers "+" a b = pure (.integer (a + b)) :=
  congrArg pure (Value.ofInt_eq_of_toInt (a.toInt_add b))

theorem applyIntegers_minus : applyIntegers "-" a b = pure (.integer (a - b)) :=
  congrArg pure (Value.ofInt_eq_of_toInt (a.toInt_sub b))

theorem applyIntegers_times : applyIntegers "*" a b = pure (.integer (a * b)) :=
  congrArg pure (Value.ofInt_eq_of_toInt (a.toInt_mul b))

/-- The quotient of the least integer and minus one is the only one that is wrapped. -/
theorem applyIntegers_divide :
    applyIntegers "/" a b =
      if b = 0 then Problem.divisionByZero.raise else pure (.integer (a / b)) := by
  have hzero : b.toInt = 0 ↔ b = 0 := Int64.toInt_inj (y := 0)
  have hquotient : Value.ofInt (truncatingDivide a.toInt b.toInt) = .integer (a / b) := by
    rw [truncatingDivide_eq_tdiv]
    exact Value.ofInt_eq_of_toInt (a.toInt_div b)
  show (if b.toInt = 0 then _ else pure _) = _
  rw [hquotient]
  exact if_congr hzero rfl rfl

end Operator

end Monkey
