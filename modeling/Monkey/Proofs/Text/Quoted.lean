import Mathlib.Algebra.Group.Nat.Defs
import Monkey.Text.Quoted

/-!
# Quoted texts read back

Which character of a text stands next in its quoted form can be read off without knowing what
follows, so different texts have different quoted forms.  A quoted form stands on one line.
-/

namespace Monkey.Text

/-- The value of a hexadecimal digit. -/
def hexValue (c : Char) : Nat :=
  if c.isDigit then c.toNat - 48 else c.toNat - 87

/-- The number that hexadecimal digits spell, most significant first. -/
def hexNumber (cs : List Char) : Nat :=
  cs.foldl (fun n c => 16 * n + hexValue c) 0

/-- The character written by a number of `width` digits, and what follows it. -/
def readNumeric (width : Nat) (cs : List Char) : Char × List Char :=
  (Char.ofNat (hexNumber (cs.take width)), cs.drop width)

/-- The character behind a backslash, and what follows it. -/
def readEscape (c : Char) (rest : List Char) : Char × List Char :=
  if c = 'n' then ('\n', rest)
  else if c = 'r' then ('\r', rest)
  else if c = 't' then ('\t', rest)
  else if c = 'x' then readNumeric 2 rest
  else if c = 'u' then readNumeric 4 rest
  else if c = 'U' then readNumeric 8 rest
  else (c, rest)

/-- The first character of a text that is quoted, and what follows it. -/
def readQuotedChar : List Char → Option (Char × List Char)
  | '\\' :: c :: rest => some (readEscape c rest)
  | c :: rest => some (c, rest)
  | [] => none

/-! ## Numbers -/

theorem hexValue_hexDigit {n : Nat} (h : n < 16) : hexValue (hexDigit n) = n := by
  revert n
  decide

theorem hexDigit_ne_feed {n : Nat} (h : n < 16) : hexDigit n ≠ '\n' := by
  revert n
  decide

theorem hexNumber_hexDigits (width n : Nat) : hexNumber (hexDigits width n) = n % 16 ^ width := by
  induction width generalizing n with
  | zero => simp [hexDigits, hexNumber, Nat.mod_one]
  | succ width ih =>
    have hlast := hexValue_hexDigit (Nat.mod_lt n (by decide : 0 < 16))
    unfold hexNumber at ih ⊢
    rw [hexDigits, List.foldl_append, ih, List.foldl_cons, List.foldl_nil, hlast, Nat.pow_succ',
      Nat.mod_mul, Nat.add_comm]

theorem readNumeric_hexDigits {width : Nat} {c : Char} (h : c.toNat < 16 ^ width)
    (rest : List Char) : readNumeric width (hexDigits width c.toNat ++ rest) = (c, rest) := by
  unfold readNumeric
  rw [List.take_left' (length_hexDigits _ _), List.drop_left' (length_hexDigits _ _),
    hexNumber_hexDigits, Nat.mod_eq_of_lt h, Char.ofNat_toNat]

theorem feed_notMem_hexDigits (width n : Nat) : '\n' ∉ hexDigits width n := by
  induction width generalizing n with
  | zero => simp [hexDigits]
  | succ width ih =>
    have hlast := hexDigit_ne_feed (Nat.mod_lt n (by decide : 0 < 16))
    simp [hexDigits, ih, hlast.symm]

/-! ## Characters -/

theorem readQuotedChar_numericEscape (c : Char) (rest : List Char) :
    readQuotedChar (numericEscape c ++ rest) = some (c, rest) := by
  have hchar : c.toNat < 16 ^ 8 := c.val.toNat_lt
  unfold numericEscape
  simp only
  split
  · next h => exact congrArg some (readNumeric_hexDigits h rest)
  split
  · next h => exact congrArg some (readNumeric_hexDigits h rest)
  · exact congrArg some (readNumeric_hexDigits hchar rest)

theorem readQuotedChar_plain {c : Char} (h : c ≠ '\\') (rest : List Char) :
    readQuotedChar (c :: rest) = some (c, rest) := by
  unfold readQuotedChar
  split
  · next heq => exact absurd (List.cons.inj heq).1 h
  · next heq => cases heq; rfl
  · next heq => cases heq

/-- A character is read back from its quoted form, whatever follows. -/
theorem readQuotedChar_quotedChar {mark : Char} (hmark : mark = '\'' ∨ mark = '"') (c : Char)
    (rest : List Char) : readQuotedChar (quotedChar mark c ++ rest) = some (c, rest) := by
  unfold quotedChar
  split
  · next h =>
    rcases h with rfl | rfl
    · rcases hmark with rfl | rfl <;> rfl
    · rfl
  split
  · next hc => rw [hc]; rfl
  split
  · next hc => rw [hc]; rfl
  split
  · next hc => rw [hc]; rfl
  split
  · next h _ _ _ _ => exact readQuotedChar_plain (fun hc => h (.inr hc)) rest
  · exact readQuotedChar_numericEscape c rest

theorem feed_notMem_quotedChar {mark : Char} (hmark : mark = '\'' ∨ mark = '"') (c : Char) :
    '\n' ∉ quotedChar mark c := by
  have hnumeric : '\n' ∉ numericEscape c := by
    simp only [numericEscape]
    split
    · simp [feed_notMem_hexDigits]
    split <;> simp [feed_notMem_hexDigits]
  unfold quotedChar
  split
  · next h =>
    rcases h with rfl | rfl
    · rcases hmark with rfl | rfl <;> decide
    · decide
  split
  · decide
  split
  · decide
  split
  · decide
  split
  · next hfeed _ _ _ => simpa [eq_comm] using hfeed
  · exact hnumeric

theorem flatMap_quotedChar_inj {mark : Char} (hmark : mark = '\'' ∨ mark = '"')
    {cs ds : List Char} (h : cs.flatMap (quotedChar mark) = ds.flatMap (quotedChar mark)) :
    cs = ds := by
  induction cs generalizing ds with
  | nil =>
    cases ds with
    | nil => rfl
    | cons d ds =>
      have hread := congrArg readQuotedChar h
      rw [List.flatMap_cons, readQuotedChar_quotedChar hmark] at hread
      cases hread
  | cons c cs ih =>
    have hread := congrArg readQuotedChar h
    rw [List.flatMap_cons, readQuotedChar_quotedChar hmark] at hread
    cases ds with
    | nil => cases hread
    | cons d ds =>
      rw [List.flatMap_cons, readQuotedChar_quotedChar hmark] at hread
      obtain ⟨rfl, hrest⟩ := Prod.mk.inj (Option.some.inj hread)
      rw [ih hrest]

/-! ## Texts -/

theorem quoteMark_cases (cs : List Char) : quoteMark cs = '\'' ∨ quoteMark cs = '"' := by
  unfold quoteMark
  split
  · exact .inr rfl
  · exact .inl rfl

/-- Different texts have different quoted forms. -/
@[simp] theorem quoted_inj {s t : String} : quoted s = quoted t ↔ s = t := by
  refine ⟨fun h => ?_, congrArg quoted⟩
  have hchars : quotedChars s.toList = quotedChars t.toList := String.ofList_injective h
  unfold quotedChars at hchars
  obtain ⟨hmark, hrest⟩ := List.cons.inj hchars
  rw [← hmark] at hrest
  have hinside := List.append_cancel_right hrest
  exact String.toList_inj.mp (flatMap_quotedChar_inj (quoteMark_cases s.toList) hinside)

theorem feed_notMem_quoted (s : String) : '\n' ∉ (quoted s).toList := by
  have hmark : '\n' ≠ quoteMark s.toList := by
    rcases quoteMark_cases s.toList with h | h <;> rw [h] <;> decide
  have hinside := feed_notMem_quotedChar (quoteMark_cases s.toList)
  simp [quoted, quotedChars, hmark, hinside]

end Monkey.Text
