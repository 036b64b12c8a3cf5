import Mathlib.Data.List.TakeWhile
import Monkey.Numeral

/-!
# Plain decimal numerals

What is read from digits alone, and that the decimal form of a number is read as the number.
-/

namespace Monkey.Numeral

theorem toAscii_of_isDigit {c : Char} (h : c.isDigit) : toAscii c = c := by
  have hle : c.toNat ≤ 57 := (Char.isDigit_iff_toNat.mp h).2
  unfold toAscii
  rw [if_pos (by omega)]

theorem isPadding_of_isDigit {c : Char} (h : c.isDigit) : isPadding c = false := by
  have hle : 48 ≤ c.toNat := (Char.isDigit_iff_toNat.mp h).1
  have hne : c ≠ ' ' := by rintro rfl; simp at hle
  simp only [isPadding, Bool.or_eq_false_iff, beq_eq_false_iff_ne, Bool.and_eq_false_iff,
    decide_eq_false_iff_not]
  exact ⟨hne, .inr (by omega)⟩

theorem separated_of_digits {cs : List Char} (h : ∀ c ∈ cs, c.isDigit) :
    separated true cs = true := by
  induction cs with
  | nil => rfl
  | cons c cs ih =>
    rw [List.forall_mem_cons] at h
    have hne : c ≠ '_' := by rintro rfl; exact absurd h.1 (by decide)
    rw [separated, if_neg hne, ih h.2]

/-- Digits alone are read as their value, unless there are too many. -/
theorem read_digits {cs : List Char} (hne : cs ≠ []) (h : ∀ c ∈ cs, c.isDigit) :
    read (String.ofList cs) =
      if digitLimit < cs.length then .error (.tooLong cs.length) else .ok (digitsValue 0 cs) := by
  have hascii : cs.map toAscii = cs :=
    (List.map_congr_left (g := id) fun c hc => toAscii_of_isDigit (h c hc)).trans (List.map_id cs)
  have hbody : cs.takeWhile isBodyChar = cs :=
    List.takeWhile_eq_self_iff.mpr fun c hc => by simp [isBodyChar, h c hc]
  have hrest : cs.dropWhile isBodyChar = [] :=
    List.dropWhile_eq_nil_iff.mpr fun c hc => by simp [isBodyChar, h c hc]
  have hdigits : cs.filter Char.isDigit = cs := List.filter_eq_self.mpr h
  obtain ⟨c, rest, rfl⟩ := List.exists_cons_of_ne_nil hne
  have hc := h c (List.mem_cons_self ..)
  have hpadding : (c :: rest).dropWhile isPadding = c :: rest := by
    rw [List.dropWhile_cons, if_neg (by rw [isPadding_of_isDigit hc]; decide)]
  have hsign : splitSign (c :: rest) = (false, c :: rest) := by
    unfold splitSign
    split
    · next heq => cases heq; exact absurd hc (by decide)
    · next heq => cases heq; exact absurd hc (by decide)
    · rfl
  have hseparated : separated false (c :: rest) = true := by
    rw [List.forall_mem_cons] at h
    have hne : c ≠ '_' := by rintro rfl; exact absurd hc (by decide)
    rw [separated, if_neg hne, separated_of_digits h.2]
  unfold read
  rw [String.toList_ofList, hascii, hpadding, hsign]
  simp only [hbody, hrest, hdigits, hseparated]
  rfl

theorem digitsValue_eq (cs : List Char) (n : Nat) :
    digitsValue n cs = Nat.ofDigitChars 10 cs n := by
  rw [Nat.ofDigitChars_eq_foldl]
  rfl

/-- The decimal form of a number that does not have too many digits is read as the number. -/
theorem read_repr {n : Nat} (h : (Nat.toDigits 10 n).length ≤ digitLimit) :
    read n.repr = .ok (n : Int) := by
  rw [Nat.repr_eq_ofList_toDigits, read_digits Nat.toDigits_ne_nil fun c hc =>
    Nat.isDigit_of_mem_toDigits (by decide) (by decide) hc, if_neg (Nat.not_lt.mpr h),
    digitsValue_eq, Nat.ofDigitChars_ten_toDigits]

/-- The numbers of 63 bits do not have too many digits. -/
theorem length_toDigits_le {n : Nat} (h : n ≤ 9223372036854775807) :
    (Nat.toDigits 10 n).length ≤ digitLimit := by
  have hlength : (Nat.toDigits 10 n).length ≤ 19 :=
    (Nat.length_toDigits_le_iff (by decide) (by decide)).mpr (by omega)
  exact hlength.trans (by decide)

theorem nonneg_of_read_digits {cs : List Char} (hne : cs ≠ []) (h : ∀ c ∈ cs, c.isDigit)
    {n : Int} (hread : read (String.ofList cs) = .ok n) : 0 ≤ n := by
  rw [read_digits hne h] at hread
  split at hread
  · cases hread
  · cases hread
    exact Int.natCast_nonneg _

end Monkey.Numeral
