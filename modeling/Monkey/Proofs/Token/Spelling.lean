import Mathlib.Data.List.TakeWhile
import Monkey.Node.Text
import Monkey.Proofs.Token.Scan

/-!
# Spelling

The words of a text, and how words, numerals, string literals and symbols at its front are
read.  Where they stand in a source does not matter to the words.
-/

namespace Monkey

namespace Scanner

/-- The words of a text. -/
def wordsIn (cs : List Char) : List Word := wordsOf (scanFrom 0 Position.start cs)

/-- The text does not go on with a word that ends before it. -/
def Apart (ds : List Char) : Prop := ∀ c ∈ ds.head?, isWordPart c = false

theorem wordsOf_token {p : Position} {kind : Kind} {cs : List Char} (h : Spells kind cs)
    (ts : List Token) :
    wordsOf (tokenAt p kind cs :: ts) = ⟨kind, String.ofList cs⟩ :: wordsOf ts :=
  wordsOf_cons h.ne_eof ts

/-- The words of tokens do not depend on where they stand. -/
theorem wordsOf_scanFrom (passed : Nat) (p : Position) (cs : List Char) :
    wordsOf (scanFrom passed p cs) = wordsIn (cs.drop passed) := by
  induction cs generalizing passed p with
  | nil => cases passed <;> rfl
  | cons c rest ih =>
    cases passed with
    | succ passed => exact ih passed (p.next c)
    | zero =>
      rw [List.drop_zero]
      unfold wordsIn
      rw [scanFrom, scanFrom]
      split
      · rw [ih, ih]
      · split
        · next hl =>
          rw [wordsOf_token (lexeme?_spells hl), wordsOf_token (lexeme?_spells hl), ih, ih]
        · rw [ih, ih]

@[simp] theorem wordsIn_nil : wordsIn [] = [] := rfl

/-- White space and comments in front hold no words. -/
theorem wordsIn_trivia (cs : List Char) :
    wordsIn (cs.drop (triviaLength false cs)) = wordsIn cs := by
  cases cs with
  | nil => rfl
  | cons c rest =>
    conv => rhs; unfold wordsIn; rw [scanFrom]
    split
    · next more hmore =>
      rw [hmore, wordsOf_scanFrom]
      rfl
    · next hzero =>
      rw [hzero, List.drop_zero]
      unfold wordsIn
      rw [scanFrom, hzero]

@[simp] theorem wordsIn_space (ds : List Char) : wordsIn (' ' :: ds) = wordsIn ds := by
  rw [← wordsIn_trivia ds]
  exact wordsOf_scanFrom (triviaLength false ds) _ ds

theorem triviaLength_eq_zero {c : Char} (hspace : isSpace c = false) (hslash : c ≠ '/')
    (rest : List Char) : triviaLength false (c :: rest) = 0 := by
  generalize hcs : c :: rest = cs
  unfold triviaLength
  split
  · rfl
  · contradiction
  · contradiction
  · cases hcs
    contradiction
  · cases hcs
    rw [hspace]
    rfl

theorem wordsIn_lexeme {c : Char} {rest : List Char} {l : Lexeme}
    (htrivia : triviaLength false (c :: rest) = 0) (hl : lexeme? c rest = some l) :
    wordsIn (c :: rest) = ⟨l.kind, String.ofList l.literal⟩ :: wordsIn (rest.drop l.more) := by
  unfold wordsIn
  rw [scanFrom, htrivia]
  simp only [hl]
  rw [wordsOf_token (lexeme?_spells hl), wordsOf_scanFrom]
  rfl

theorem takeWhile_append_of_head {p : Char → Bool} {cs ds : List Char} (hcs : cs.all p)
    (hds : ∀ c ∈ ds.head?, p c = false) : (cs ++ ds).takeWhile p = cs := by
  rw [List.takeWhile_append_of_pos (List.all_eq_true.mp hcs)]
  cases ds with
  | nil => simp
  | cons d ds => rw [List.takeWhile_cons, hds d rfl]; simp

theorem isDigit_eq_false_of_isWordStart {c : Char} (h : isWordStart c) : c.isDigit = false := by
  rw [Bool.eq_false_iff]
  intro hdigit
  rw [Char.isDigit_iff_toNat] at hdigit
  have hcases : (decide (c.val ≥ 'A'.val ∧ c.val ≤ 'Z'.val) ||
      (c.val ≥ 'a'.val && c.val ≤ 'z'.val) || c == '_') = true := h
  simp only [Bool.or_eq_true, Bool.and_eq_true, decide_eq_true_eq, ge_iff_le,
    UInt32.le_iff_toNat_le, beq_iff_eq] at hcases
  rcases hcases with (h | h) | rfl
  · exact absurd (Nat.le_trans h.1 hdigit.2) (by decide)
  · exact absurd (Nat.le_trans h.1 hdigit.2) (by decide)
  · exact absurd hdigit.2 (by decide)

/-- What starts a word or a numeral starts neither white space nor a comment nor a string
    literal. -/
theorem ne_of_isWordStart_or_isDigit {c : Char} (h : isWordStart c ∨ c.isDigit) :
    isSpace c = false ∧ c ≠ '/' ∧ c ≠ '"' := by
  refine ⟨?_, ?_, ?_⟩
  · rw [Bool.eq_false_iff]
    intro hspace
    simp only [isSpace, Bool.or_eq_true, beq_iff_eq] at hspace
    rcases hspace with ((rfl | rfl) | rfl) | rfl <;> exact absurd h (by decide)
  · rintro rfl
    exact absurd h (by decide)
  · rintro rfl
    exact absurd h (by decide)

/-- A word in front. -/
theorem wordsIn_word {cs ds : List Char} (hcs : IsWord cs) (hds : Apart ds) :
    wordsIn (cs ++ ds) = ⟨Kind.ofWord (String.ofList cs), String.ofList cs⟩ :: wordsIn ds := by
  obtain ⟨c, more, rfl, hstart, hmore⟩ := hcs
  obtain ⟨hspace, hslash, hquote⟩ := ne_of_isWordStart_or_isDigit (.inl hstart)
  have hdigit := isDigit_eq_false_of_isWordStart hstart
  have htake := takeWhile_append_of_head hmore hds
  have hl : lexeme? c (more ++ ds) =
      some ⟨Kind.ofWord (String.ofList (c :: more)), c :: more, more.length⟩ := by
    unfold lexeme?
    rw [if_neg hquote, if_neg (by rw [hdigit]; decide), if_pos hstart, htake]
  rw [List.cons_append, wordsIn_lexeme (triviaLength_eq_zero hspace hslash _) hl]
  rw [List.drop_left]

/-- Digits in front. -/
theorem wordsIn_digits {cs ds : List Char} (hne : cs ≠ []) (hcs : cs.all Char.isDigit)
    (hds : Apart ds) :
    wordsIn (cs ++ ds) = ⟨.int, String.ofList cs⟩ :: wordsIn ds := by
  obtain ⟨c, more, rfl⟩ := List.exists_cons_of_ne_nil hne
  rw [List.all_cons, Bool.and_eq_true] at hcs
  obtain ⟨hspace, hslash, hquote⟩ := ne_of_isWordStart_or_isDigit (.inr hcs.1)
  have htake : (more ++ ds).takeWhile Char.isDigit = more := by
    apply takeWhile_append_of_head hcs.2
    intro d hd
    have hpart := hds d hd
    simp only [isWordPart, Char.isAlphanum, Bool.or_eq_false_iff] at hpart
    exact hpart.1.2
  have hl : lexeme? c (more ++ ds) = some ⟨.int, c :: more, more.length⟩ := by
    unfold lexeme?
    rw [if_neg hquote, if_pos hcs.1, htake]
  rw [List.cons_append, wordsIn_lexeme (triviaLength_eq_zero hspace hslash _) hl]
  rw [List.drop_left]

/-! ## String literals -/

theorem escapedLiteralChar_cases (c : Char) :
    (∃ d, escapedLiteralChar c = ['\\', d] ∧ d ≠ '\n' ∧ escaped d = c) ∨
      (escapedLiteralChar c = [c] ∧ c ≠ '\\' ∧ c ≠ '"') := by
  by_cases hslash : c = '\\'
  · subst hslash
    exact .inl ⟨'\\', rfl, by decide, rfl⟩
  by_cases hquote : c = '"'
  · subst hquote
    exact .inl ⟨'"', rfl, by decide, rfl⟩
  by_cases hn : c = '\n'
  · subst hn
    exact .inl ⟨'n', rfl, by decide, rfl⟩
  by_cases ht : c = '\t'
  · subst ht
    exact .inl ⟨'t', rfl, by decide, rfl⟩
  by_cases hr : c = '\r'
  · subst hr
    exact .inl ⟨'r', rfl, by decide, rfl⟩
  · refine .inr ⟨?_, hslash, hquote⟩
    unfold escapedLiteralChar
    rw [if_neg hslash, if_neg hquote, if_neg hn, if_neg ht, if_neg hr]

theorem stringBody?_escape {d : Char} (h : d ≠ '\n') (rest : List Char) :
    stringBody? ('\\' :: d :: rest) = (stringBody? rest).map fun body => '\\' :: d :: body := by
  rw [stringBody?, if_neg h]

theorem stringBody?_plain {c : Char} (hslash : c ≠ '\\') (hquote : c ≠ '"') (rest : List Char) :
    stringBody? (c :: rest) = (stringBody? rest).map (c :: ·) := by
  conv => lhs; unfold stringBody?
  split
  · next heq => cases heq
  · next heq => cases heq; exact absurd rfl hquote
  · next heq => cases heq; exact absurd rfl hslash
  · next heq => cases heq; exact absurd rfl hslash
  · next heq => cases heq; rfl

theorem unescape_plain {c : Char} (hslash : c ≠ '\\') (rest : List Char) :
    unescape (c :: rest) = c :: unescape rest := by
  conv => lhs; unfold unescape
  split
  · next heq => cases heq; exact absurd rfl hslash
  · next heq => cases heq; rfl
  · next heq => cases heq

/-- An escaped text ends at the quote after it. -/
theorem stringBody?_escaped (cs ds : List Char) :
    stringBody? (cs.flatMap escapedLiteralChar ++ '"' :: ds) =
      some (cs.flatMap escapedLiteralChar) := by
  induction cs with
  | nil => rfl
  | cons c cs ih =>
    rw [List.flatMap_cons, List.append_assoc]
    rcases escapedLiteralChar_cases c with ⟨d, heq, hd, -⟩ | ⟨heq, hslash, hquote⟩
    · rw [heq, List.cons_append, List.cons_append, List.nil_append, stringBody?_escape hd, ih]
      rfl
    · rw [heq, List.singleton_append, stringBody?_plain hslash hquote, ih]
      rfl

/-- An escaped text spells the text. -/
theorem unescape_escaped (cs : List Char) : unescape (cs.flatMap escapedLiteralChar) = cs := by
  induction cs with
  | nil => rfl
  | cons c cs ih =>
    rw [List.flatMap_cons]
    rcases escapedLiteralChar_cases c with ⟨d, heq, -, hd⟩ | ⟨heq, hslash, -⟩
    · rw [heq, List.cons_append, List.cons_append, List.nil_append, unescape, hd, ih]
    · rw [heq, List.singleton_append, unescape_plain hslash, ih]

/-- At its opening quote a string literal is read up to its closing quote. -/
theorem lexeme?_stringLiteral (s : String) (ds : List Char) :
    lexeme? '"' (s.toList.flatMap escapedLiteralChar ++ '"' :: ds) =
      some ⟨.string, s.toList, (s.toList.flatMap escapedLiteralChar).length + 1⟩ := by
  unfold lexeme?
  rw [if_pos rfl, stringBody?_escaped]
  simp only [unescape_escaped]

/-- A string literal in front. -/
theorem wordsIn_stringLiteral (s : String) (ds : List Char) :
    wordsIn ((stringLiteral s).toList ++ ds) = ⟨.string, s⟩ :: wordsIn ds := by
  have hrest : (s.toList.flatMap escapedLiteralChar ++ '"' :: ds).drop
      ((s.toList.flatMap escapedLiteralChar).length + 1) = ds := by
    rw [← List.drop_drop, List.drop_left]
    rfl
  unfold stringLiteral
  rw [String.toList_ofList, List.cons_append, List.append_assoc, List.singleton_append,
    wordsIn_lexeme (triviaLength_eq_zero rfl (by decide) _) (lexeme?_stringLiteral s ds),
    String.ofList_toList, hrest]

/-! ## Symbols -/

/-- The symbols that are read the same whatever follows them. -/
def plainSymbols : List Kind :=
  [.plus, .minus, .asterisk, .lt, .gt, .eq, .notEq, .comma, .semicolon, .colon, .lparen,
    .rparen, .lbrace, .rbrace, .lbracket, .rbracket]

/-- A symbol in front. -/
theorem wordsIn_symbol {kind : Kind} (h : kind ∈ plainSymbols) (ds : List Char) :
    wordsIn (kind.name.toList ++ ds) = ⟨kind, kind.name⟩ :: wordsIn ds := by
  obtain ⟨c, more, hname, htrivia, hl⟩ : ∃ c more, kind.name.toList = c :: more ∧
      triviaLength false (c :: (more ++ ds)) = 0 ∧
      lexeme? c (more ++ ds) = some ⟨kind, kind.name.toList, more.length⟩ := by
    simp only [plainSymbols, List.mem_cons, List.not_mem_nil, or_false] at h
    rcases h with rfl | rfl | rfl | rfl | rfl | rfl | rfl | rfl | rfl | rfl | rfl | rfl | rfl |
      rfl | rfl | rfl <;> exact ⟨_, _, rfl, rfl, rfl⟩
  rw [hname, List.cons_append, wordsIn_lexeme htrivia hl, List.drop_left, String.ofList_toList]

/-- A symbol in front, and a space after it. -/
theorem wordsIn_symbol_space {kind : Kind} (h : kind ∈ Kind.symbols) (ds : List Char) :
    wordsIn (kind.name.toList ++ ' ' :: ds) = ⟨kind, kind.name⟩ :: wordsIn ds := by
  obtain ⟨c, more, hname, htrivia, hl⟩ : ∃ c more, kind.name.toList = c :: more ∧
      triviaLength false (c :: (more ++ ' ' :: ds)) = 0 ∧
      lexeme? c (more ++ ' ' :: ds) = some ⟨kind, kind.name.toList, more.length⟩ := by
    simp only [Kind.symbols, List.mem_cons, List.not_mem_nil, or_false] at h
    rcases h with rfl | rfl | rfl | rfl | rfl | rfl | rfl | rfl | rfl | rfl | rfl | rfl | rfl |
      rfl | rfl | rfl | rfl | rfl | rfl <;> exact ⟨_, _, rfl, rfl, rfl⟩
  rw [hname, List.cons_append, wordsIn_lexeme htrivia hl, List.drop_left, String.ofList_toList,
    wordsIn_space]

/-- An exclamation mark in front of anything but an equals sign. -/
theorem wordsIn_bang {ds : List Char} (h : ds.head? ≠ some '=') :
    wordsIn ('!' :: ds) = ⟨.bang, "!"⟩ :: wordsIn ds := by
  have hsymbol : symbol? '!' ds = some .bang := by
    unfold symbol?
    split <;> first | rfl | contradiction
  have hl : lexeme? '!' ds = some ⟨.bang, ['!'], 0⟩ := by
    unfold lexeme?
    rw [if_neg (by decide), if_neg (by decide), if_neg (by decide), hsymbol]
    rfl
  exact wordsIn_lexeme (triviaLength_eq_zero rfl (by decide) _) hl

end Scanner

end Monkey
