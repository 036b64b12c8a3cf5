import Monkey.Proofs.Token.Spelling

/-!
# The pattern table

The patterns of tokens as languages, said without the scanner: what is accepted, which of the
prefixes of a text matches, and what is read off a match.  The first match at a place is a
relation that determines its value, and the scanner computes that value.
-/

namespace Monkey

namespace Scanner

/-- The longest text of a language that a text starts with. -/
structure LongestPrefix (language : List Char → Prop) (cs m : List Char) : Prop where
  starts : m <+: cs
  accepted : language m
  longest : ∀ n, n <+: cs → language n → n.length ≤ m.length

theorem LongestPrefix.unique {language : List Char → Prop} {cs m n : List Char}
    (hm : LongestPrefix language cs m) (hn : LongestPrefix language cs n) : m = n := by
  have hle := hn.longest m hm.starts hm.accepted
  exact (List.prefix_of_prefix_length_le hm.starts hn.starts hle).eq_of_length_le
    (hm.longest n hn.starts hn.accepted)

/-! ## Languages -/

/-- The characters that stand for others behind a backslash; all others stand for
    themselves. -/
def escapes : List (Char × Char) :=
  [('n', '\n'), ('t', '\t'), ('r', '\r'), ('"', '"'), ('\\', '\\')]

/-- The inside of a string literal and the text that it spells.  Quotes and backslashes stand
    behind backslashes, and no line feed does. -/
inductive Inside : List Char → List Char → Prop
  | nil : Inside [] []
  | plain {c : Char} {cs literal : List Char} : c ≠ '"' → c ≠ '\\' → Inside cs literal →
      Inside (c :: cs) (c :: literal)
  | escape {c : Char} {cs literal : List Char} : c ≠ '\n' → Inside cs literal →
      Inside ('\\' :: c :: cs) ((escapes.lookup c).getD c :: literal)

/-- A string literal that spells a text. -/
def IsLiteral (cs literal : List Char) : Prop :=
  ∃ body, cs = '"' :: (body ++ ['"']) ∧ Inside body literal

/-- What follows the two slashes of a comment: no line feed but behind a backslash. -/
inductive CommentBody : List Char → Prop
  | nil : CommentBody []
  | continued {cs : List Char} : CommentBody cs → CommentBody ('\\' :: '\n' :: cs)
  | char {c : Char} {cs : List Char} : c ≠ '\n' → CommentBody cs → CommentBody (c :: cs)

/-- A comment. -/
def IsComment (cs : List Char) : Prop := ∃ body, cs = '/' :: '/' :: body ∧ CommentBody body

/-! ## Patterns -/

/-- A pattern of the table. -/
inductive Pattern where
  | string
  | integer
  | word
  | symbol (kind : Kind)
  | illegal

/-- The texts that a pattern accepts. -/
def Pattern.Accepts : Pattern → List Char → Prop
  | string, cs => ∃ literal, IsLiteral cs literal
  | integer, cs => cs ≠ [] ∧ cs.all Char.isDigit
  | word, cs => IsWord cs
  | symbol kind, cs => cs = kind.name.toList
  | illegal, cs => ∃ c, cs = [c] ∧ Text.isBlank c = false

/-- The kind and the literal of a token that a pattern reads off a match. -/
def Pattern.Yields : Pattern → List Char → Kind → List Char → Prop
  | string, cs, kind, literal => kind = .string ∧ IsLiteral cs literal
  | integer, cs, kind, literal => kind = .int ∧ literal = cs
  | word, cs, kind, literal => kind = Kind.ofWord (String.ofList cs) ∧ literal = cs
  | symbol known, cs, kind, literal => kind = known ∧ literal = cs
  | illegal, cs, kind, literal => kind = .illegal ∧ literal = cs

/-- The kinds of the symbols, those of two characters before their prefixes. -/
def operators : List Kind :=
  [.eq, .notEq, .assign, .plus, .minus, .bang, .asterisk, .slash, .lt, .gt, .comma, .semicolon,
    .colon, .lparen, .rparen, .lbrace, .rbrace, .lbracket, .rbracket]

/-- The pattern table. -/
def patterns : List Pattern :=
  [.string, .integer, .word] ++ (operators.map .symbol ++ [.illegal])

/-- The first pattern of a table that accepts a prefix of a text, and the longest such
    prefix. -/
inductive FirstMatch (cs : List Char) : List Pattern → Pattern → List Char → Prop
  | here {pattern : Pattern} {rest : List Pattern} {m : List Char} :
      LongestPrefix pattern.Accepts cs m → FirstMatch cs (pattern :: rest) pattern m
  | later {pattern other : Pattern} {rest : List Pattern} {m : List Char} :
      (∀ n, n <+: cs → ¬ pattern.Accepts n) → FirstMatch cs rest other m →
      FirstMatch cs (pattern :: rest) other m

namespace FirstMatch

variable {cs : List Char} {table : List Pattern} {pattern pattern' : Pattern} {m m' : List Char}

theorem longest (h : FirstMatch cs table pattern m) :
    LongestPrefix pattern.Accepts cs m := by
  induction h with
  | here h => exact h
  | later _ _ ih => exact ih

/-- There is one first match. -/
theorem unique (h : FirstMatch cs table pattern m) (h' : FirstMatch cs table pattern' m') :
    pattern = pattern' ∧ m = m' := by
  induction h with
  | here hm =>
    cases h' with
    | here hm' => exact ⟨rfl, hm.unique hm'⟩
    | later hno _ => exact absurd hm.accepted (hno _ hm.starts)
  | later hno _ ih =>
    cases h' with
    | here hm' => exact absurd hm'.accepted (hno _ hm'.starts)
    | later _ h' => exact ih h'

end FirstMatch

theorem Inside.unique {cs literal literal' : List Char} (h : Inside cs literal)
    (h' : Inside cs literal') : literal = literal' := by
  induction h generalizing literal' with
  | nil => cases h'; rfl
  | plain hquote hslash _ ih =>
    cases h' with
    | plain _ _ h' => rw [ih h']
    | escape => exact absurd rfl hslash
  | escape hline _ ih =>
    cases h' with
    | plain _ hslash => exact absurd rfl hslash
    | escape _ h' => rw [ih h']

theorem IsLiteral.unique {cs literal literal' : List Char} (h : IsLiteral cs literal)
    (h' : IsLiteral cs literal') : literal = literal' := by
  obtain ⟨body, rfl, h⟩ := h
  obtain ⟨body', heq, h'⟩ := h'
  obtain rfl : body = body' := List.append_cancel_right (List.cons.inj heq).2
  exact h.unique h'

/-- What is read off a match is determined by it. -/
theorem Pattern.Yields.unique {pattern : Pattern} {cs literal literal' : List Char}
    {kind kind' : Kind} (h : pattern.Yields cs kind literal)
    (h' : pattern.Yields cs kind' literal') : kind = kind' ∧ literal = literal' := by
  cases pattern with
  | string => exact ⟨h.1.trans h'.1.symm, h.2.unique h'.2⟩
  | integer | word | symbol | illegal => exact ⟨h.1.trans h'.1.symm, h.2.trans h'.2.symm⟩

/-! ## What is read in front of a text -/

theorem escaped_eq (c : Char) : (escapes.lookup c).getD c = escaped c := by
  unfold escaped escapes
  by_cases hn : c = 'n'
  · rw [if_pos hn, hn]
    rfl
  rw [if_neg hn]
  by_cases ht : c = 't'
  · rw [if_pos ht, ht]
    rfl
  rw [if_neg ht]
  by_cases hr : c = 'r'
  · rw [if_pos hr, hr]
    rfl
  rw [if_neg hr]
  by_cases hquote : c = '"'
  · rw [hquote]
    rfl
  by_cases hslash : c = '\\'
  · rw [hslash]
    rfl
  simp [List.lookup_cons, beq_eq_false_iff_ne.mpr, hn, ht, hr, hquote, hslash]

/-- What the scanner takes for the inside of a string literal is one, up to the quote. -/
theorem inside_of_stringBody? {cs body : List Char} (h : stringBody? cs = some body) :
    ∃ rest, cs = body ++ '"' :: rest ∧ Inside body (unescape body) := by
  fun_induction stringBody? cs generalizing body with
  | case1 | case3 => cases h
  | case4 => cases h
  | case2 rest =>
    cases h
    exact ⟨rest, rfl, .nil⟩
  | case5 c rest hc ih =>
    obtain ⟨more, hmore, rfl⟩ := Option.map_eq_some_iff.mp h
    obtain ⟨back, rfl, hinside⟩ := ih hmore
    refine ⟨back, rfl, ?_⟩
    rw [unescape, ← escaped_eq]
    exact .escape hc hinside
  | case6 c rest hquote hsingle hescape ih =>
    have hslash : c ≠ '\\' := by
      intro hc
      cases rest with
      | nil => exact hsingle hc rfl
      | cons d more => exact hescape d more hc rfl
    obtain ⟨more, hmore, rfl⟩ := Option.map_eq_some_iff.mp h
    obtain ⟨back, rfl, hinside⟩ := ih hmore
    refine ⟨back, rfl, ?_⟩
    rw [unescape_plain hslash]
    exact .plain hquote hslash hinside

/-- The scanner finds the inside of every string literal. -/
theorem Inside.stringBody? {body literal : List Char} (h : Inside body literal)
    (rest : List Char) : stringBody? (body ++ '"' :: rest) = some body := by
  induction h with
  | nil => rfl
  | plain hquote hslash _ ih =>
    rw [List.cons_append, stringBody?_plain hslash hquote, ih]
    rfl
  | escape hline _ ih =>
    rw [List.cons_append, List.cons_append, stringBody?_escape hline, ih]
    rfl

/-- A run of characters of a class is no longer than the run that is there. -/
theorem length_le_takeWhile {p : Char → Bool} {cs n : List Char} (hn : n <+: cs)
    (hall : n.all p) : n.length ≤ (cs.takeWhile p).length := by
  obtain ⟨after, rfl⟩ := hn
  rw [List.takeWhile_append_of_pos (List.all_eq_true.mp hall), List.length_append]
  exact Nat.le_add_right _ _

variable {c : Char} {rest : List Char}

theorem longestPrefix_literal {body : List Char} (hc : c = '"')
    (h : stringBody? rest = some body) :
    LongestPrefix Pattern.string.Accepts (c :: rest) ('"' :: (body ++ ['"'])) ∧
      IsLiteral ('"' :: (body ++ ['"'])) (unescape body) := by
  subst hc
  obtain ⟨back, rfl, hinside⟩ := inside_of_stringBody? h
  have hliteral : IsLiteral ('"' :: (body ++ ['"'])) (unescape body) := ⟨body, rfl, hinside⟩
  refine ⟨⟨⟨back, by simp⟩, ⟨_, hliteral⟩, ?_⟩, hliteral⟩
  rintro n ⟨after, hn⟩ ⟨literal, other, rfl, hother⟩
  have hsplit : other ++ '"' :: after = body ++ '"' :: back := by simpa using hn
  have hfound := hother.stringBody? after
  rw [hsplit, h] at hfound
  cases hfound
  exact Nat.le_refl _

theorem longestPrefix_digits (hc : c.isDigit) :
    LongestPrefix Pattern.integer.Accepts (c :: rest) (c :: rest.takeWhile Char.isDigit) := by
  have htake : (c :: rest).takeWhile Char.isDigit = c :: rest.takeWhile Char.isDigit := by
    rw [List.takeWhile_cons, if_pos hc]
  rw [← htake]
  refine ⟨List.takeWhile_prefix _, ⟨?_, List.all_takeWhile⟩, ?_⟩
  · rw [htake]
    exact List.cons_ne_nil _ _
  · exact fun n hn h => length_le_takeWhile hn h.2

theorem longestPrefix_word (hc : isWordStart c) :
    LongestPrefix Pattern.word.Accepts (c :: rest) (c :: rest.takeWhile isWordPart) := by
  refine ⟨List.cons_prefix_cons.mpr ⟨rfl, List.takeWhile_prefix _⟩,
    ⟨c, _, rfl, hc, List.all_takeWhile⟩, ?_⟩
  rintro _ hn ⟨d, more, rfl, -, hmore⟩
  exact Nat.succ_le_succ (length_le_takeWhile (List.cons_prefix_cons.mp hn).2 hmore)

theorem longestPrefix_symbol {kind : Kind} (h : kind.name.toList <+: c :: rest) :
    LongestPrefix (Pattern.symbol kind).Accepts (c :: rest) kind.name.toList :=
  ⟨h, rfl, fun _ _ hn => hn ▸ Nat.le_refl _⟩

theorem longestPrefix_illegal (hc : Text.isBlank c = false) :
    LongestPrefix Pattern.illegal.Accepts (c :: rest) [c] :=
  ⟨⟨rest, rfl⟩, ⟨c, rfl, hc⟩, fun _ _ ⟨_, hn, _⟩ => hn ▸ Nat.le_refl _⟩

/-- No string literal is in front of a text. -/
theorem not_accepts_string (h : c = '"' → stringBody? rest = none) :
    ∀ n, n <+: c :: rest → ¬ Pattern.string.Accepts n := by
  rintro n ⟨after, hn⟩ ⟨literal, body, rfl, hinside⟩
  obtain ⟨rfl, hsplit⟩ := List.cons.inj hn
  have hfound := hinside.stringBody? after
  have hrest : body ++ '"' :: after = rest := by simpa using hsplit
  rw [hrest, h rfl] at hfound
  cases hfound

theorem not_accepts_integer (h : ¬ c.isDigit) :
    ∀ n, n <+: c :: rest → ¬ Pattern.integer.Accepts n := by
  rintro n hn ⟨hne, hall⟩
  obtain ⟨d, more, rfl⟩ := List.exists_cons_of_ne_nil hne
  obtain ⟨rfl, -⟩ := List.cons_prefix_cons.mp hn
  rw [List.all_cons, Bool.and_eq_true] at hall
  exact h hall.1

theorem not_accepts_word (h : ¬ isWordStart c) :
    ∀ n, n <+: c :: rest → ¬ Pattern.word.Accepts n := by
  rintro _ hn ⟨d, more, rfl, hd, -⟩
  obtain ⟨rfl, -⟩ := List.cons_prefix_cons.mp hn
  exact h hd

/-- Whether a text starts with a symbol. -/
def startsWith (cs : List Char) (kind : Kind) : Bool := kind.name.toList.isPrefixOf cs

/-- The scanner finds the first symbol of the table. -/
theorem symbol?_eq_find? (c : Char) (rest : List Char) :
    symbol? c rest = operators.find? (startsWith (c :: rest)) := by
  have hbeq (a b : Char) : (a == b) = decide (b = a) := by
    rw [Bool.beq_eq_decide_eq, decide_eq_decide]
    exact eq_comm
  unfold symbol?
  cases rest <;> split <;>
    simp_all [operators, startsWith, Kind.name, List.isPrefixOf]

theorem not_accepts_symbol {kind : Kind} (h : ¬ startsWith (c :: rest) kind) :
    ∀ n, n <+: c :: rest → ¬ (Pattern.symbol kind).Accepts n := by
  rintro _ hn rfl
  exact h (List.isPrefixOf_iff_prefix.mpr hn)

/-- The first of several symbols in front of a text. -/
theorem firstMatch_symbol {kinds : List Kind} {kind : Kind} (table : List Pattern)
    (h : kinds.find? (startsWith (c :: rest)) = some kind) :
    FirstMatch (c :: rest) (kinds.map .symbol ++ table) (.symbol kind) kind.name.toList := by
  induction kinds with
  | nil => cases h
  | cons other kinds ih =>
    rw [List.map_cons, List.cons_append]
    by_cases hother : startsWith (c :: rest) other
    · rw [List.find?_cons_of_pos hother] at h
      cases h
      exact .here (longestPrefix_symbol (List.isPrefixOf_iff_prefix.mp hother))
    · rw [List.find?_cons_of_neg hother] at h
      exact .later (not_accepts_symbol hother) (ih h)

/-- No symbol is in front of a text, so what comes after them in a table matches. -/
theorem firstMatch_after_symbols {kinds : List Kind} {table : List Pattern} {pattern : Pattern}
    {m : List Char}
    (h : kinds.find? (startsWith (c :: rest)) = none)
    (htable : FirstMatch (c :: rest) table pattern m) :
    FirstMatch (c :: rest) (kinds.map .symbol ++ table) pattern m := by
  induction kinds with
  | nil => exact htable
  | cons other kinds ih =>
    rw [List.find?_eq_none, List.forall_mem_cons, ← List.find?_eq_none] at h
    exact .later (not_accepts_symbol h.1) (ih h.2)

/-! ## The scanner matches the table -/

/-- What the scanner reads in front of a text is the first match of the pattern table. -/
theorem lexeme?_firstMatch {l : Lexeme} (h : lexeme? c rest = some l) :
    ∃ pattern m, FirstMatch (c :: rest) patterns pattern m ∧ m.length = l.more + 1 ∧
      pattern.Yields m l.kind l.literal := by
  unfold lexeme? at h
  by_cases hquote : c = '"'
  · rw [if_pos hquote] at h
    cases hbody : stringBody? rest with
    | some body =>
      rw [hbody] at h
      cases h
      obtain ⟨hlongest, hliteral⟩ := longestPrefix_literal hquote hbody
      exact ⟨.string, _, .here hlongest, by simp, rfl, hliteral⟩
    | none =>
      rw [hbody] at h
      cases h
      subst hquote
      have hsymbol : symbol? '"' rest = none := rfl
      rw [symbol?_eq_find?] at hsymbol
      refine ⟨.illegal, ['"'], .later (not_accepts_string fun _ => hbody) ?_, rfl, rfl, rfl⟩
      refine .later (not_accepts_integer (by decide)) (.later (not_accepts_word (by decide)) ?_)
      exact firstMatch_after_symbols hsymbol (.here (longestPrefix_illegal rfl))
  have hstring : ∀ n, n <+: c :: rest → ¬ Pattern.string.Accepts n :=
    not_accepts_string fun h => absurd h hquote
  rw [if_neg hquote] at h
  by_cases hdigit : c.isDigit
  · rw [if_pos hdigit] at h
    cases h
    exact ⟨.integer, _, .later hstring (.here (longestPrefix_digits hdigit)), rfl, rfl, rfl⟩
  rw [if_neg hdigit] at h
  by_cases hstart : isWordStart c
  · rw [if_pos hstart] at h
    cases h
    refine ⟨.word, _, .later hstring (.later (not_accepts_integer hdigit) ?_), rfl, rfl, rfl⟩
    exact .here (longestPrefix_word hstart)
  rw [if_neg hstart] at h
  have hlater {pattern : Pattern} {m : List Char}
      (hm : FirstMatch (c :: rest) (operators.map .symbol ++ [.illegal]) pattern m) :
      FirstMatch (c :: rest) patterns pattern m :=
    .later hstring (.later (not_accepts_integer hdigit) (.later (not_accepts_word hstart) hm))
  cases hsymbol : symbol? c rest with
  | some kind =>
    rw [hsymbol] at h
    cases h
    rw [symbol?_eq_find?] at hsymbol
    refine ⟨.symbol kind, _, hlater (firstMatch_symbol _ hsymbol), ?_, rfl, rfl⟩
    have hlength : ∀ kind ∈ operators, kind.name.toList.length = kind.name.length - 1 + 1 := by
      decide
    exact hlength kind (List.mem_of_find?_eq_some hsymbol)
  | none =>
    rw [hsymbol] at h
    rw [symbol?_eq_find?] at hsymbol
    by_cases hblank : Text.isBlank c
    · simp [hblank] at h
    · simp only [hblank] at h
      cases h
      refine ⟨.illegal, [c], hlater (firstMatch_after_symbols hsymbol (.here ?_)), rfl, rfl, rfl⟩
      exact longestPrefix_illegal (Bool.eq_false_iff.mpr hblank)

theorem isBlank_of_lexeme?_eq_none (h : lexeme? c rest = none) : Text.isBlank c := by
  unfold lexeme? at h
  split at h
  · split at h <;> cases h
  split at h
  · cases h
  split at h
  · cases h
  split at h
  · cases h
  split at h
  · next hblank => exact hblank
  · cases h

/-! ## Matches begin with no blank -/

theorem isBlank_eq_false_of_isDigit (h : c.isDigit) : Text.isBlank c = false := by
  rw [Char.isDigit_iff_toNat] at h
  have hdigit : 48 ≤ c.toNat ∧ c.toNat ≤ 57 := h
  simp [Text.isBlank]
  omega

theorem isBlank_eq_false_of_isWordStart (h : isWordStart c) : Text.isBlank c = false := by
  have hcases : (decide (c.val ≥ 'A'.val ∧ c.val ≤ 'Z'.val) ||
      (c.val ≥ 'a'.val && c.val ≤ 'z'.val) || c == '_') = true := h
  simp only [Bool.or_eq_true, Bool.and_eq_true, decide_eq_true_eq, ge_iff_le,
    UInt32.le_iff_toNat_le, beq_iff_eq] at hcases
  rcases hcases with (hupper | hlower) | rfl
  · have hrange : 65 ≤ c.toNat ∧ c.toNat ≤ 90 := hupper
    simp [Text.isBlank]
    omega
  · have hrange : 97 ≤ c.toNat ∧ c.toNat ≤ 122 := hlower
    simp [Text.isBlank]
    omega
  · rfl

theorem FirstMatch.mem {cs m : List Char} {table : List Pattern} {pattern : Pattern}
    (h : FirstMatch cs table pattern m) : pattern ∈ table := by
  induction h with
  | here => exact List.mem_cons_self ..
  | later _ _ ih => exact List.mem_cons_of_mem _ ih

/-- No symbol is empty, and none begins with a blank. -/
theorem operators_start :
    operators.all fun kind => kind.name.toList.head?.any fun c => !Text.isBlank c := rfl

/-- A match of the pattern table begins with a character that is not blank. -/
theorem FirstMatch.exists_cons {cs m : List Char} {pattern : Pattern}
    (h : FirstMatch cs patterns pattern m) :
    ∃ c more, m = c :: more ∧ Text.isBlank c = false := by
  have haccepted := h.longest.accepted
  cases pattern with
  | string =>
    obtain ⟨literal, body, rfl, -⟩ := haccepted
    exact ⟨'"', _, rfl, rfl⟩
  | integer =>
    obtain ⟨hne, hall⟩ := haccepted
    obtain ⟨c, more, rfl⟩ := List.exists_cons_of_ne_nil hne
    rw [List.all_cons, Bool.and_eq_true] at hall
    exact ⟨c, more, rfl, isBlank_eq_false_of_isDigit hall.1⟩
  | word =>
    obtain ⟨c, more, rfl, hc, -⟩ := haccepted
    exact ⟨c, more, rfl, isBlank_eq_false_of_isWordStart hc⟩
  | symbol kind =>
    have hkind : kind ∈ operators := by simpa [patterns] using h.mem
    have hhead := List.all_eq_true.mp operators_start kind hkind
    obtain ⟨c, hc, hblank⟩ := (Option.any_eq_true ..).mp hhead
    obtain ⟨more, hmore⟩ := List.head?_eq_some_iff.mp hc
    exact ⟨c, more, haccepted.trans hmore, by simpa using hblank⟩
  | illegal =>
    obtain ⟨c, rfl, hc⟩ := haccepted
    exact ⟨c, [], rfl, hc⟩

end Scanner

end Monkey
