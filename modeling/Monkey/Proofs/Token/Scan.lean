import Monkey.Proofs.Token.Word
import Monkey.Token.Scanner

/-!
# What is scanned

The last token of a source text is its end, and every other token is spelt as its kind
demands.
-/

namespace Monkey

namespace Kind

/-- The kinds of the symbols. -/
def symbols : List Kind :=
  [assign, plus, minus, bang, asterisk, slash, lt, gt, eq, notEq, comma, semicolon, colon,
    lparen, rparen, lbrace, rbrace, lbracket, rbracket]

theorem ofWord_eq_ident_or_mem (word : String) :
    ofWord word = ident ∨ ∃ entry ∈ keywords, entry = (word, ofWord word) := by
  unfold ofWord
  cases h : keywords.lookup word with
  | none => exact .inl rfl
  | some kind =>
    obtain ⟨front, back, hsplit, -⟩ := List.lookup_eq_some_iff.mp h
    refine .inr ⟨(word, kind), ?_, rfl⟩
    rw [hsplit]
    exact List.mem_append_right _ (List.mem_cons_self ..)

end Kind

namespace Scanner

/-- A word of letters, digits and underscores that starts with no digit. -/
def IsWord (cs : List Char) : Prop :=
  ∃ c rest, cs = c :: rest ∧ isWordStart c ∧ rest.all isWordPart

/-- The literals of a kind of token. -/
inductive Spells : Kind → List Char → Prop
  | string (cs : List Char) : Spells .string cs
  | illegal (cs : List Char) : Spells .illegal cs
  | int {cs : List Char} : cs ≠ [] → cs.all Char.isDigit → Spells .int cs
  | word {cs : List Char} : IsWord cs → Spells (Kind.ofWord (String.ofList cs)) cs
  | symbol {kind : Kind} : kind ∈ Kind.symbols → Spells kind kind.name.toList

theorem symbol?_mem {c : Char} {rest : List Char} {kind : Kind}
    (h : symbol? c rest = some kind) : kind ∈ Kind.symbols := by
  unfold symbol? at h
  split at h <;> cases h <;> decide

theorem lexeme?_spells {c : Char} {rest : List Char} {l : Lexeme}
    (h : lexeme? c rest = some l) : Spells l.kind l.literal := by
  unfold lexeme? at h
  split at h
  · split at h <;> cases h
    · exact .string _
    · exact .illegal _
  split at h
  · next hdigit =>
    cases h
    refine .int (List.cons_ne_nil _ _) ?_
    rw [List.all_cons, hdigit, Bool.true_and]
    exact List.all_takeWhile
  split at h
  · next hstart =>
    cases h
    exact .word ⟨c, _, rfl, hstart, List.all_takeWhile⟩
  split at h
  · next hsymbol =>
    cases h
    exact .symbol (symbol?_mem hsymbol)
  split at h <;> cases h
  exact .illegal _

theorem Spells.ne_eof {kind : Kind} {cs : List Char} (h : Spells kind cs) : kind ≠ .eof := by
  cases h with
  | word _ =>
    rcases Kind.ofWord_eq_ident_or_mem (String.ofList cs) with heq | ⟨entry, hmem, heq⟩
    · rw [heq]
      decide
    · intro heof
      rw [heof] at heq
      rw [heq] at hmem
      simp [Kind.keywords] at hmem
  | symbol hmem =>
    rintro rfl
    exact absurd hmem (by decide)
  | string | illegal | int => exact Kind.noConfusion

/-- The tokens of a text are spelt as their kinds demand, and then comes its end. -/
theorem scanFrom_eq (passed : Nat) (p : Position) (cs : List Char) :
    ∃ tokens, scanFrom passed p cs = tokens ++ [tokenAt (p.after cs) .eof []] ∧
      ∀ t ∈ tokens, Spells t.kind t.literal.toList := by
  induction cs generalizing passed p with
  | nil => exact ⟨[], by cases passed <;> rfl, by simp⟩
  | cons c rest ih =>
    cases passed with
    | succ passed => exact ih passed (p.next c)
    | zero =>
      rw [scanFrom]
      split
      · exact ih _ _
      · split
        · next l hl =>
          obtain ⟨tokens, heq, hspelt⟩ := ih l.more (p.next c)
          refine ⟨tokenAt p l.kind l.literal :: tokens, by rw [heq]; rfl, ?_⟩
          intro t ht
          rw [List.mem_cons] at ht
          rcases ht with rfl | ht
          · simpa [tokenAt] using lexeme?_spells hl
          · exact hspelt t ht
        · exact ih _ _

end Scanner

open Scanner

/-- The tokens of a source text are spelt as their kinds demand, and then comes its end. -/
theorem scan_eq (source : String) :
    ∃ tokens, scan source = tokens ++ [endOfSource source] ∧
      ∀ t ∈ tokens, Spells t.kind t.literal.toList :=
  scanFrom_eq 0 Position.start source.toList

/-- The words of a source text are those of its tokens before the end. -/
theorem wordsOf_scan {source : String} {tokens : List Token}
    (hscan : scan source = tokens ++ [endOfSource source])
    (hspelt : ∀ t ∈ tokens, Spells t.kind t.literal.toList) :
    wordsOf (scan source) = tokens.map Token.word := by
  rw [hscan, wordsOf_append fun t ht => (hspelt t ht).ne_eof, wordsOf_cons_eof rfl,
    List.append_nil]

/-- The words of a source text are those of its tokens that are no end. -/
theorem mem_wordsOf_scan_iff {source : String} {w : Word} :
    w ∈ wordsOf (scan source) ↔ ∃ t ∈ scan source, t.kind ≠ .eof ∧ t.word = w := by
  obtain ⟨tokens, hscan, hspelt⟩ := scan_eq source
  rw [wordsOf_scan hscan hspelt, List.mem_map, hscan]
  constructor
  · rintro ⟨t, ht, hword⟩
    exact ⟨t, List.mem_append_left _ ht, (hspelt t ht).ne_eof, hword⟩
  · rintro ⟨t, ht, hne, hword⟩
    rcases List.mem_append.mp ht with ht | ht
    · exact ⟨t, ht, hword⟩
    · rw [List.mem_singleton] at ht
      exact absurd (ht ▸ rfl) hne

theorem eofLast_scan (source : String) : EofLast (scan source) := by
  obtain ⟨tokens, hscan, hspelt⟩ := scan_eq source
  rw [hscan]
  exact eofLast_append (fun t ht => (hspelt t ht).ne_eof) _

end Monkey
