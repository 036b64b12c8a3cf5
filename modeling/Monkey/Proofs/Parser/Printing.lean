import Monkey.Proofs.Parser.Shape
import Monkey.Proofs.Token.Spelling

/-!
# Printed trees

The printed form of a tree that fits its place: its words derive the tree.  Every expression
is printed so that calls, indexes and operators may follow it, and statements in a row are
printed apart.
-/

namespace Monkey.Grammar

open Scanner
open Monkey.Parser (Precedence precedence greatestInteger)

/-- A text that has the given words, and then those of any text that does not go on with its
    last word. -/
def Shows (cs : List Char) (ws : List Word) : Prop :=
  ∀ ds, Apart ds → wordsIn (cs ++ ds) = ws ++ wordsIn ds

theorem apart_cons {c : Char} (h : isWordPart c = false) (ds : List Char) : Apart (c :: ds) := by
  intro d hd
  cases hd
  exact h

@[simp] theorem apart_punctuation (ds : List Char) :
    Apart (' ' :: ds) ∧ Apart ('(' :: ds) ∧ Apart (')' :: ds) ∧ Apart ('[' :: ds) ∧
      Apart (']' :: ds) ∧ Apart ('}' :: ds) ∧ Apart (',' :: ds) ∧ Apart (':' :: ds) ∧
      Apart (';' :: ds) := by
  refine ⟨?_, ?_, ?_, ?_, ?_, ?_, ?_, ?_, ?_⟩ <;> exact apart_cons rfl ds

@[simp] theorem wordsIn_punctuation (ds : List Char) :
    wordsIn ('(' :: ds) = ⟨.lparen, "("⟩ :: wordsIn ds ∧
      wordsIn (')' :: ds) = ⟨.rparen, ")"⟩ :: wordsIn ds ∧
      wordsIn ('[' :: ds) = ⟨.lbracket, "["⟩ :: wordsIn ds ∧
      wordsIn (']' :: ds) = ⟨.rbracket, "]"⟩ :: wordsIn ds ∧
      wordsIn ('{' :: ds) = ⟨.lbrace, "\x7b"⟩ :: wordsIn ds ∧
      wordsIn ('}' :: ds) = ⟨.rbrace, "\x7d"⟩ :: wordsIn ds ∧
      wordsIn (',' :: ds) = ⟨.comma, ","⟩ :: wordsIn ds ∧
      wordsIn (':' :: ds) = ⟨.colon, ":"⟩ :: wordsIn ds ∧
      wordsIn (';' :: ds) = ⟨.semicolon, ";"⟩ :: wordsIn ds :=
  ⟨@wordsIn_symbol .lparen (by decide) ds, @wordsIn_symbol .rparen (by decide) ds,
    @wordsIn_symbol .lbracket (by decide) ds, @wordsIn_symbol .rbracket (by decide) ds,
    @wordsIn_symbol .lbrace (by decide) ds, @wordsIn_symbol .rbrace (by decide) ds,
    @wordsIn_symbol .comma (by decide) ds, @wordsIn_symbol .colon (by decide) ds,
    @wordsIn_symbol .semicolon (by decide) ds⟩

/-- A name or keyword in front. -/
theorem wordsIn_name {x : String} (hx : IsWord x.toList) {ds : List Char} (hds : Apart ds) :
    wordsIn (x.toList ++ ds) = ⟨Kind.ofWord x, x⟩ :: wordsIn ds := by
  rw [wordsIn_word hx hds, String.ofList_toList]

@[simp] theorem wordsIn_keywords (ds : List Char) :
    wordsIn ('i' :: 'f' :: ' ' :: ds) = ⟨.ifKeyword, "if"⟩ :: wordsIn ds ∧
      wordsIn ('e' :: 'l' :: 's' :: 'e' :: ' ' :: ds) = ⟨.elseKeyword, "else"⟩ :: wordsIn ds ∧
      wordsIn ('f' :: 'n' :: '(' :: ds) = ⟨.function, "fn"⟩ :: ⟨.lparen, "("⟩ :: wordsIn ds ∧
      wordsIn ('l' :: 'e' :: 't' :: ' ' :: ds) = ⟨.letKeyword, "let"⟩ :: wordsIn ds ∧
      wordsIn ('r' :: 'e' :: 't' :: 'u' :: 'r' :: 'n' :: ' ' :: ds) =
        ⟨.returnKeyword, "return"⟩ :: wordsIn ds := by
  have hspace := wordsIn_space ds
  have hopen := (wordsIn_punctuation ds).1
  refine ⟨?_, ?_, ?_, ?_, ?_⟩
  · rw [← hspace]
    exact wordsIn_name (x := "if") ⟨_, _, rfl, rfl, rfl⟩ (apart_cons rfl ds)
  · rw [← hspace]
    exact wordsIn_name (x := "else") ⟨_, _, rfl, rfl, rfl⟩ (apart_cons rfl ds)
  · rw [← hopen]
    exact wordsIn_name (x := "fn") ⟨_, _, rfl, rfl, rfl⟩ (apart_cons rfl ds)
  · rw [← hspace]
    exact wordsIn_name (x := "let") ⟨_, _, rfl, rfl, rfl⟩ (apart_cons rfl ds)
  · rw [← hspace]
    exact wordsIn_name (x := "return") ⟨_, _, rfl, rfl, rfl⟩ (apart_cons rfl ds)

/-! ## Trees in their places -/

/-- How a statement that is printed before the words `v` goes on to the words `r`: a bare
    expression is still to be terminated. -/
def GoesOn (n : Node) (v r : List Word) : Prop :=
  if n.isExprStatement then Next (· ≠ .elseKeyword) v ∧ Terminates v r else v = r

/-- The printed form of a tree derives the tree in its place. -/
def Shown : Place → Node → Prop
  | .expression, n => n.text.toList.head? ≠ some '=' ∧ ∃ ws, Shows n.text.toList ws ∧
      ∀ r, Next (· ≠ .elseKeyword) r → Derives (.primary n.strip) (ws ++ r) r
  | .block, n => ∃ ws, Shows n.text.toList ws ∧ ∀ r, Derives (.block n.strip) (ws ++ r) r
  | .statement, n => ∃ ws, Shows n.text.toList ws ∧
      ∀ v r, GoesOn n v r → Derives (.statement n.strip) (ws ++ v) r

theorem primary_at {level : Precedence} {e : Node} {i r : List Word}
    (h : Derives (.primary e) i r) : Derives (.expression level e) i r :=
  .operand (.unprefixed h)

/-! ## Lists -/

/-- Texts after the first of a list. -/
def moreTexts (ss : List String) : List Char := ss.flatMap fun s => ',' :: ' ' :: s.toList

theorem joined_cons (s : String) (ss : List String) :
    (Text.joined ", " (s :: ss)).toList = s.toList ++ moreTexts ss := by
  induction ss generalizing s with
  | nil => simp [moreTexts]
  | cons t ss ih =>
    rw [Text.joined_cons_cons, String.toList_append, String.toList_append, ih]
    simp [moreTexts]

theorem apart_moreTexts (ss : List String) {c : Char} (hc : isWordPart c = false)
    (ds : List Char) : Apart (moreTexts ss ++ c :: ds) := by
  cases ss with
  | nil => exact apart_cons hc ds
  | cons s ss => exact apart_cons rfl _

section Items

variable {closing : Kind} {l : String} {c : Char}

/-- Items after the first, up to the closing character. -/
theorem shown_moreItems (hc : isWordPart c = false)
    (hclosing : ∀ ds, wordsIn (c :: ds) = ⟨closing, l⟩ :: wordsIn ds)
    (helse : closing ≠ .elseKeyword) {es : List Node} (h : ∀ e ∈ es, Shown .expression e) :
    ∃ ws, (∀ ds, wordsIn (moreTexts (Node.texts es) ++ c :: ds) = ws ++ wordsIn ds) ∧
      ∀ r, Next (· ≠ .elseKeyword) (ws ++ r) ∧
        Derives (.moreItems closing (Node.stripAll es)) (ws ++ r) r := by
  induction es with
  | nil => exact ⟨[⟨closing, l⟩], hclosing, fun r => ⟨next_cons helse, .noMoreItems⟩⟩
  | cons e es ih =>
    rw [List.forall_mem_cons] at h
    obtain ⟨-, ws, hshows, hderives⟩ := h.1
    obtain ⟨vs, hmore, hrest⟩ := ih h.2
    refine ⟨⟨.comma, ","⟩ :: (ws ++ vs), ?_, ?_⟩
    · intro ds
      have happart := apart_moreTexts (Node.texts es) hc ds
      simp only [Node.texts, moreTexts, List.flatMap_cons] at happart hmore ⊢
      simp [hshows _ happart, hmore]
    · intro r
      refine ⟨next_cons (by decide), ?_⟩
      rw [List.cons_append, List.append_assoc, Node.stripAll]
      exact .moreItems (primary_at (hderives _ (hrest r).1)) (hrest r).2

/-- Items up to the closing character. -/
theorem shown_items (hc : isWordPart c = false)
    (hclosing : ∀ ds, wordsIn (c :: ds) = ⟨closing, l⟩ :: wordsIn ds)
    (helse : closing ≠ .elseKeyword) {es : List Node} (h : ∀ e ∈ es, Shown .expression e) :
    ∃ ws, (∀ ds, wordsIn ((Text.joined ", " (Node.texts es)).toList ++ c :: ds) =
        ws ++ wordsIn ds) ∧
      ∀ r, Derives (.items closing (Node.stripAll es)) (ws ++ r) r := by
  cases es with
  | nil => exact ⟨[⟨closing, l⟩], hclosing, fun r => .noItems⟩
  | cons e es =>
    rw [List.forall_mem_cons] at h
    obtain ⟨-, ws, hshows, hderives⟩ := h.1
    obtain ⟨vs, hmore, hrest⟩ := shown_moreItems hc hclosing helse h.2
    refine ⟨ws ++ vs, fun ds => ?_, fun r => ?_⟩
    · rw [Node.texts, joined_cons, List.append_assoc,
        hshows _ (apart_moreTexts _ hc ds), hmore, List.append_assoc]
    · rw [List.append_assoc, Node.stripAll]
      exact .items (primary_at (hderives _ (hrest r).1)) (hrest r).2

end Items

theorem shown_moreParameters {xs : List Name} (h : ∀ x ∈ xs, IsName x.value) :
    ∃ ws, (∀ ds, wordsIn (moreTexts (xs.map Name.value) ++ ')' :: ds) = ws ++ wordsIn ds) ∧
      ∀ r, Derives (.moreParameters (xs.map Name.bare)) (ws ++ r) r := by
  induction xs with
  | nil =>
    exact ⟨[⟨.rparen, ")"⟩], fun ds => (wordsIn_punctuation ds).2.1, fun r => .noMoreParameters⟩
  | cons x xs ih =>
    rw [List.forall_mem_cons] at h
    obtain ⟨ws, hmore, hrest⟩ := ih h.2
    refine ⟨⟨.comma, ","⟩ :: ⟨.ident, x.value⟩ :: ws, fun ds => ?_,
      fun r => .moreParameters (hrest r)⟩
    have happart := apart_moreTexts (xs.map Name.value) rfl (c := ')') ds
    have hname := wordsIn_name h.1.1 happart
    rw [h.1.2] at hname
    simp only [moreTexts, List.map_cons, List.flatMap_cons] at hmore hname ⊢
    simp [hname, hmore]

theorem shown_parameters {xs : List Name} (h : ∀ x ∈ xs, IsName x.value) :
    ∃ ws, (∀ ds, wordsIn ((Text.joined ", " (xs.map Name.value)).toList ++ ')' :: ds) =
        ws ++ wordsIn ds) ∧
      ∀ r, Derives (.parameters (xs.map Name.bare)) (ws ++ r) r := by
  cases xs with
  | nil => exact ⟨[⟨.rparen, ")"⟩], fun ds => (wordsIn_punctuation ds).2.1, fun r => .noParameters⟩
  | cons x xs =>
    rw [List.forall_mem_cons] at h
    obtain ⟨ws, hmore, hrest⟩ := shown_moreParameters h.2
    refine ⟨⟨.ident, x.value⟩ :: ws, fun ds => ?_, fun r => .parameters (hrest r)⟩
    have hname := wordsIn_name h.1.1 (apart_moreTexts (xs.map Name.value) rfl (c := ')') ds)
    rw [h.1.2] at hname
    rw [List.map_cons, joined_cons, List.append_assoc, hname, hmore]
    rfl

/-- Pairs up to the closing brace. -/
theorem shown_pairs {ps : List (Node × Node)} (hkeys : ∀ p ∈ ps, Shown .expression p.1)
    (hvalues : ∀ p ∈ ps, Shown .expression p.2) :
    ∃ ws, (∀ ds, wordsIn ((Text.joined ", " (Node.pairTexts ps)).toList ++ '}' :: ds) =
        ws ++ wordsIn ds) ∧
      ∀ r, Derives (.pairs (Node.stripPairs ps)) (ws ++ r) r := by
  induction ps with
  | nil => exact ⟨[⟨.rbrace, "\x7d"⟩], fun ds => by simp [Node.pairTexts], fun r => .noPairs⟩
  | cons p ps ih =>
    obtain ⟨k, v⟩ := p
    rw [List.forall_mem_cons] at hkeys hvalues
    obtain ⟨-, ws, hkey, hkeyDerives⟩ := hkeys.1
    obtain ⟨-, vs, hvalue, hvalueDerives⟩ := hvalues.1
    have hcolon : ∀ r, Derives (.expression Precedence.lowest k.strip)
        (ws ++ ⟨.colon, ":"⟩ :: r) (⟨.colon, ":"⟩ :: r) :=
      fun r => primary_at (hkeyDerives _ (next_cons (by decide)))
    cases ps with
    | nil =>
      refine ⟨ws ++ ⟨.colon, ":"⟩ :: (vs ++ [⟨.rbrace, "\x7d"⟩]), fun ds => ?_, fun r => ?_⟩
      · simp [Node.pairTexts, hkey _ (apart_punctuation _).2.2.2.2.2.2.2.1,
          hvalue _ (apart_punctuation _).2.2.2.2.2.1]
      · rw [List.append_assoc, List.cons_append, List.append_assoc]
        exact .lastPair (hcolon _) (primary_at (hvalueDerives _ (next_cons (by decide))))
    | cons q ps =>
      obtain ⟨us, hrest, hderives⟩ := ih hkeys.2 hvalues.2
      refine ⟨ws ++ ⟨.colon, ":"⟩ :: (vs ++ ⟨.comma, ","⟩ :: us), fun ds => ?_, fun r => ?_⟩
      · rw [Node.pairTexts] at hrest ⊢
        rw [Node.pairTexts, Text.joined_cons_cons]
        simp [hkey _ (apart_punctuation _).2.2.2.2.2.2.2.1,
          hvalue _ (apart_punctuation _).2.2.2.2.2.2.1, hrest]
      · rw [List.append_assoc, List.cons_append, List.append_assoc]
        exact .pairs (hcolon _) (primary_at (hvalueDerives _ (next_cons (by decide)))) (hderives r)

/-! ## Statements -/

/-- The words that may follow the statements of a program or block. -/
def Closes (r : List Word) : Prop := r = [] ∨ ∃ l j, r = ⟨.rbrace, l⟩ :: j

theorem Closes.goesOn {r : List Word} (h : Closes r) (n : Node) : GoesOn n r r := by
  unfold GoesOn
  split
  · rcases h with rfl | ⟨l, j, rfl⟩
    · exact ⟨nofun, .absent nofun⟩
    · exact ⟨next_cons nofun, .absent (next_cons ⟨nofun, rfl⟩)⟩
  · rfl

/-- Statements in a row. -/
theorem shown_statements {ss : List Node} (h : ∀ s ∈ ss, Shown .statement s) :
    ∃ ws, Shows (Node.textStatements ss).toList ws ∧
      ∀ r, Closes r → Derives (.statements (Node.stripAll ss)) (ws ++ r) r := by
  induction ss with
  | nil => exact ⟨[], fun ds _ => rfl, fun r _ => .noStatements⟩
  | cons s ss ih =>
    rw [List.forall_mem_cons] at h
    obtain ⟨ws, hshows, hderives⟩ := h.1
    obtain ⟨vs, hrest, hrestDerives⟩ := ih h.2
    cases ss with
    | nil =>
      refine ⟨ws, fun ds hds => ?_, fun r hr => ?_⟩
      · simpa [Node.textStatements] using hshows ds hds
      · exact .statements (hderives r r (hr.goesOn s)) .noStatements
    | cons t ss =>
      cases hexpr : s.isExprStatement with
      | true =>
        refine ⟨ws ++ ⟨.semicolon, ";"⟩ :: vs, fun ds hds => ?_, fun r hr => ?_⟩
        · rw [Node.textStatements]
          simp [hexpr, hshows _ (apart_punctuation _).2.2.2.2.2.2.2.2, hrest ds hds]
        · rw [List.append_assoc, List.cons_append]
          refine .statements (hderives _ _ ?_) (hrestDerives r hr)
          rw [GoesOn, if_pos hexpr]
          exact ⟨next_cons (by decide), .semicolon⟩
      | false =>
        refine ⟨ws ++ vs, fun ds hds => ?_, fun r hr => ?_⟩
        · rw [Node.textStatements]
          simp [hexpr, hshows _ (apart_punctuation _).1, hrest ds hds]
        · rw [List.append_assoc]
          refine .statements (hderives _ _ ?_) (hrestDerives r hr)
          rw [GoesOn, if_neg (by rw [hexpr]; decide)]

theorem shown_block {ss : List Node} {t : Option Token} (h : ∀ s ∈ ss, Shown .statement s) :
    Shown .block (.block ss t) := by
  obtain ⟨ws, hshows, hderives⟩ := shown_statements h
  refine ⟨⟨.lbrace, "\x7b"⟩ :: (ws ++ [⟨.rbrace, "\x7d"⟩]), fun ds hds => ?_, fun r => ?_⟩
  · cases ss with
    | nil =>
      have hnil := hshows [] nofun
      have hws : ws = [] := by simpa [Node.textStatements] using hnil.symm
      simp [Node.text, hws]
    | cons s ss => simp [Node.text, hshows _ (apart_punctuation _).1]
  · rw [List.cons_append, List.append_assoc]
    exact .block (hderives _ (.inr ⟨_, _, rfl⟩))

theorem shown_letBinding {x : Name} {e : Node} {t : Option Token} (hx : IsName x.value)
    (he : Shown .expression e) : Shown .statement (.letBinding x e t) := by
  obtain ⟨-, ws, hshows, hderives⟩ := he
  refine ⟨⟨.letKeyword, "let"⟩ :: ⟨.ident, x.value⟩ :: ⟨.assign, "="⟩ ::
    (ws ++ [⟨.semicolon, ";"⟩]), fun ds hds => ?_, ?_⟩
  · have hname (ds : List Char) := wordsIn_name hx.1 (apart_punctuation ds).1
    have hassign (ds : List Char) : wordsIn ('=' :: ' ' :: ds) = ⟨.assign, "="⟩ :: wordsIn ds :=
      @wordsIn_symbol_space .assign (by decide) ds
    rw [hx.2] at hname
    simp [Node.text, hname, hassign, hshows _ (apart_punctuation _).2.2.2.2.2.2.2.2]
  · rintro v r rfl
    simp only [List.cons_append, List.append_assoc]
    exact .letBinding (primary_at (hderives _ (next_cons (by decide)))) .semicolon

theorem shown_returning {e : Node} {t : Option Token} (he : Shown .expression e) :
    Shown .statement (.returning e t) := by
  obtain ⟨-, ws, hshows, hderives⟩ := he
  refine ⟨⟨.returnKeyword, "return"⟩ :: (ws ++ [⟨.semicolon, ";"⟩]), fun ds hds => ?_, ?_⟩
  · simp [Node.text, hshows _ (apart_punctuation _).2.2.2.2.2.2.2.2]
  · rintro v r rfl
    simp only [List.cons_append, List.append_assoc]
    exact .returning (primary_at (hderives _ (next_cons (by decide)))) .semicolon

theorem shown_exprStatement {e : Node} {t : Option Token} (he : Shown .expression e) :
    Shown .statement (.exprStatement e t) := by
  obtain ⟨-, ws, hshows, hderives⟩ := he
  refine ⟨ws, hshows, ?_⟩
  rintro v r ⟨hnext, hend⟩
  exact .exprStatement (primary_at (hderives v hnext)) hend

/-! ## Expressions -/

theorem head?_append_ne {cs ds : List Char} (hcs : cs.head? ≠ some '=')
    (hds : ds.head? ≠ some '=') : (cs ++ ds).head? ≠ some '=' := by
  cases cs with
  | nil => exact hds
  | cons c cs => exact hcs

theorem head?_cons_ne {c : Char} {cs : List Char} (h : c ≠ '=') : (c :: cs).head? ≠ some '=' :=
  fun hc => h (Option.some.inj hc)

/-- An operator tree in parentheses is an expression of its own. -/
theorem shown_parenthesised {n : Node} (ws : List Word)
    (hshows : ∀ ds, wordsIn (n.text.toList ++ ds) = ⟨.lparen, "("⟩ :: (ws ++
      ⟨.rparen, ")"⟩ :: wordsIn ds))
    (hhead : n.text.toList.head? = some '(')
    (hderives : ∀ r, Derives (.expression Precedence.lowest n.strip)
      (ws ++ ⟨.rparen, ")"⟩ :: r) (⟨.rparen, ")"⟩ :: r)) : Shown .expression n := by
  refine ⟨by rw [hhead]; decide, ⟨.lparen, "("⟩ :: (ws ++ [⟨.rparen, ")"⟩]), fun ds _ => ?_,
    fun r _ => ?_⟩
  · rw [hshows, List.cons_append, List.append_assoc]
    rfl
  · rw [List.cons_append, List.append_assoc]
    exact .grouped (hderives r)

theorem shown_identifier {x : Name} (hx : IsName x.value) : Shown .expression (.identifier x) := by
  refine ⟨?_, [⟨.ident, x.value⟩], fun ds hds => ?_, fun r _ => .identifier⟩
  · obtain ⟨c, rest, hcs, hstart, -⟩ := hx.1
    rw [Node.text, hcs, List.head?_cons]
    rintro ⟨⟩
    exact absurd hstart (by decide)
  · rw [Node.text, wordsIn_name hx.1 hds, hx.2]
    rfl

theorem shown_integer {n : Int} {t : Option Token} (hn : 0 ≤ n) (hle : n ≤ greatestInteger) :
    Shown .expression (.integer n t) := by
  obtain ⟨m, rfl⟩ := Int.eq_ofNat_of_zero_le hn
  have htext : (Node.integer m t).text = m.repr := rfl
  have hdigits : ∀ c ∈ Nat.toDigits 10 m, c.isDigit := fun c hc =>
    Nat.isDigit_of_mem_toDigits (by decide) (by decide) hc
  have hread : Numeral.read m.repr = .ok (m : Int) :=
    Numeral.read_repr (Numeral.length_toDigits_le (Int.ofNat_le.mp hle))
  refine ⟨?_, [⟨.int, m.repr⟩], fun ds hds => ?_, fun r _ => .integer hread hle⟩
  · rw [htext, Nat.toList_repr]
    intro hhead
    have hequals := hdigits _ (List.mem_of_mem_head? hhead)
    exact absurd hequals (by decide)
  · rw [htext, Nat.toList_repr,
      wordsIn_digits Nat.toDigits_ne_nil (List.all_eq_true.mpr hdigits) hds,
      Nat.repr_eq_ofList_toDigits]
    rfl

theorem shown_string {s : String} {t : Option Token} : Shown .expression (.string s t) := by
  refine ⟨?_, [⟨.string, s⟩], fun ds _ => wordsIn_stringLiteral s ds, fun r _ => .string⟩
  rw [Node.text, stringLiteral, String.toList_ofList]
  exact head?_cons_ne (by decide)

theorem shown_boolean {b : Bool} {t : Option Token} : Shown .expression (.boolean b t) := by
  cases b with
  | true =>
    exact ⟨by simp [Node.text], [⟨.trueKeyword, "true"⟩],
      fun ds hds => wordsIn_name (x := "true") ⟨_, _, rfl, rfl, rfl⟩ hds, fun r _ => .trueLiteral⟩
  | false =>
    exact ⟨by simp [Node.text], [⟨.falseKeyword, "false"⟩],
      fun ds hds => wordsIn_name (x := "false") ⟨_, _, rfl, rfl, rfl⟩ hds, fun r _ => .falseLiteral⟩

theorem shown_array {es : List Node} {t : Option Token} (h : ∀ e ∈ es, Shown .expression e) :
    Shown .expression (.array es t) := by
  obtain ⟨ws, hitems, hderives⟩ := shown_items (c := ']') rfl
    (fun ds => (wordsIn_punctuation ds).2.2.2.1) (by decide) h
  refine ⟨by simp [Node.text], ⟨.lbracket, "["⟩ :: ws, fun ds _ => ?_,
    fun r _ => .array (hderives r)⟩
  simp [Node.text, hitems]

theorem shown_hash {ps : List (Node × Node)} {t : Option Token}
    (hkeys : ∀ p ∈ ps, Shown .expression p.1) (hvalues : ∀ p ∈ ps, Shown .expression p.2) :
    Shown .expression (.hash ps t) := by
  obtain ⟨ws, hpairs, hderives⟩ := shown_pairs hkeys hvalues
  refine ⟨by simp [Node.text], ⟨.lbrace, "\x7b"⟩ :: ws, fun ds _ => ?_,
    fun r _ => .hash (hderives r)⟩
  simp [Node.text, hpairs]

theorem shown_function {xs : List Name} {b : Node} {t : Option Token}
    (hxs : ∀ x ∈ xs, IsName x.value) (hb : Shown .block b) :
    Shown .expression (.function xs b t) := by
  obtain ⟨ws, hparameters, hnames⟩ := shown_parameters hxs
  obtain ⟨vs, hshows, hbody⟩ := hb
  refine ⟨by simp [Node.text], ⟨.function, "fn"⟩ :: ⟨.lparen, "("⟩ :: (ws ++ vs), fun ds hds => ?_,
    fun r _ => ?_⟩
  · simp [Node.text, hparameters, hshows ds hds]
  · simp only [List.cons_append, List.append_assoc]
    exact .function (hnames _) (hbody r)

theorem shown_prefixed {kind : Kind} {e : Node} {t : Option Token} (hkind : IsPrefix kind)
    (he : Shown .expression e) : Shown .expression (.prefixed kind.name e t) := by
  obtain ⟨hhead, ws, hshows, hderives⟩ := he
  have hoperator (ds : List Char) : wordsIn (kind.name.toList ++ (e.text.toList ++ ')' :: ds)) =
      ⟨kind, kind.name⟩ :: wordsIn (e.text.toList ++ ')' :: ds) := by
    have hnext : (e.text.toList ++ ')' :: ds).head? ≠ some '=' :=
      head?_append_ne hhead (head?_cons_ne (by decide))
    rcases hkind with rfl | rfl
    · exact wordsIn_bang hnext
    · exact wordsIn_symbol (by decide) _
  refine shown_parenthesised (⟨kind, kind.name⟩ :: ws) (fun ds => ?_) ?_ fun r => ?_
  · simp [Node.text, hoperator, hshows _ (apart_punctuation _).2.2.1]
  · simp [Node.text]
  · exact .operand (.prefixed hkind (.unprefixed (hderives _ (next_cons (by decide)))))

theorem shown_binary {kind : Kind} {e f : Node} {t : Option Token} (hkind : IsBinary kind)
    (he : Shown .expression e) (hf : Shown .expression f) :
    Shown .expression (.binary e kind.name f t) := by
  obtain ⟨-, ws, hleft, hleftDerives⟩ := he
  obtain ⟨-, vs, hright, hrightDerives⟩ := hf
  have hsymbol := Parser.symbol_of_isBinary hkind
  refine shown_parenthesised (ws ++ ⟨kind, kind.name⟩ :: vs) (fun ds => ?_) ?_ fun r => ?_
  · simp [Node.text, hleft _ (apart_punctuation _).1, wordsIn_symbol_space hsymbol,
      hright _ (apart_punctuation _).2.2.1]
  · simp [Node.text]
  · rw [List.append_assoc, List.cons_append]
    have helse : kind ≠ .elseKeyword := by
      rintro rfl
      exact absurd hsymbol (by decide)
    exact .binary hkind (Nat.le_of_lt hkind.1) (primary_at (hleftDerives _ (next_cons helse)))
      (primary_at (hrightDerives _ (next_cons (by decide))))

theorem shown_index {e f : Node} {t : Option Token} (he : Shown .expression e)
    (hf : Shown .expression f) : Shown .expression (.index e f t) := by
  obtain ⟨-, ws, hleft, hleftDerives⟩ := he
  obtain ⟨-, vs, hright, hrightDerives⟩ := hf
  refine shown_parenthesised (ws ++ ⟨.lbracket, "["⟩ :: (vs ++ [⟨.rbracket, "]"⟩]))
    (fun ds => ?_) ?_ fun r => ?_
  · simp [Node.text, hleft _ (apart_punctuation _).2.2.2.1,
      hright _ (apart_punctuation _).2.2.2.2.1]
  · simp [Node.text]
  · simp only [List.append_assoc, List.cons_append]
    exact primary_at (.index (hleftDerives _ (next_cons (by decide)))
      (primary_at (hrightDerives _ (next_cons (by decide)))))

theorem shown_call {f : Node} {as : List Node} {t : Option Token} (hf : Shown .expression f)
    (has : ∀ a ∈ as, Shown .expression a) : Shown .expression (.call f as t) := by
  obtain ⟨hhead, ws, hshows, hderives⟩ := hf
  obtain ⟨vs, hitems, harguments⟩ := shown_items (c := ')') rfl
    (fun ds => (wordsIn_punctuation ds).2.1) (by decide) has
  refine ⟨?_, ws ++ ⟨.lparen, "("⟩ :: vs, fun ds _ => ?_, fun r _ => ?_⟩
  · simp only [Node.text, String.toList_append, List.append_assoc]
    exact head?_append_ne hhead (head?_cons_ne (by decide))
  · simp [Node.text, hshows _ (apart_punctuation _).2.1, hitems]
  · rw [List.append_assoc, List.cons_append]
    exact .call (hderives _ (next_cons (by decide))) (harguments r)

theorem shown_conditional {c d : Node} {a : Option Node} {t : Option Token}
    (hc : Shown .expression c) (hd : Shown .block d) (ha : ∀ b ∈ a, Shown .block b) :
    Shown .expression (.conditional c d a t) := by
  obtain ⟨-, ws, hcondition, hconditionDerives⟩ := hc
  obtain ⟨vs, hconsequence, hconsequenceDerives⟩ := hd
  have hgrouped (r : List Word) : Derives (.expression Precedence.lowest c.strip)
      (ws ++ ⟨.rparen, ")"⟩ :: r) (⟨.rparen, ")"⟩ :: r) :=
    primary_at (hconditionDerives _ (next_cons (by decide)))
  cases a with
  | none =>
    refine ⟨by simp [Node.text], ⟨.ifKeyword, "if"⟩ :: ⟨.lparen, "("⟩ :: (ws ++
      ⟨.rparen, ")"⟩ :: vs), fun ds hds => ?_, fun r hr => ?_⟩
    · simp [Node.text, Node.textAlternative, hcondition _ (apart_punctuation _).2.2.1,
        hconsequence ds hds]
    · simp only [List.cons_append, List.append_assoc]
      exact .conditional (hgrouped _) (hconsequenceDerives r) hr
  | some b =>
    obtain ⟨us, halternative, halternativeDerives⟩ := ha b rfl
    refine ⟨by simp [Node.text], ⟨.ifKeyword, "if"⟩ :: ⟨.lparen, "("⟩ :: (ws ++
      ⟨.rparen, ")"⟩ :: (vs ++ ⟨.elseKeyword, "else"⟩ :: us)), fun ds hds => ?_, fun r _ => ?_⟩
    · simp [Node.text, Node.textAlternative, hcondition _ (apart_punctuation _).2.2.1,
        hconsequence _ (apart_punctuation _).1, halternative ds hds]
    · simp only [List.cons_append, List.append_assoc]
      exact .conditionalElse (hgrouped _) (hconsequenceDerives _) (halternativeDerives r)

/-- The printed form of every tree that fits its place derives the tree. -/
theorem shown_of_fits {place : Place} {n : Node} (h : Fits place n) : Shown place n := by
  induction h with
  | identifier hx => exact shown_identifier hx
  | integer hn hle => exact shown_integer hn hle
  | string => exact shown_string
  | boolean => exact shown_boolean
  | array _ ih => exact shown_array ih
  | hash _ _ ihk ihv => exact shown_hash ihk ihv
  | function hxs _ ih => exact shown_function hxs ih
  | prefixed hkind _ ih => exact shown_prefixed hkind ih
  | binary hkind _ _ ihe ihf => exact shown_binary hkind ihe ihf
  | conditional _ _ _ ihc ihd iha => exact shown_conditional ihc ihd iha
  | call _ _ ihf iha => exact shown_call ihf iha
  | index _ _ ihe ihf => exact shown_index ihe ihf
  | block _ ih => exact shown_block ih
  | letBinding hx _ ih => exact shown_letBinding hx ih
  | returning _ ih => exact shown_returning ih
  | exprStatement _ ih => exact shown_exprStatement ih

end Monkey.Grammar
