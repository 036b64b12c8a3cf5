import Monkey.Node.Alike
import Monkey.Parser.Grammar
import Monkey.Proofs.Token.Word

/-!
# Derivations

The grammar of the language, over words: tokens without their positions.  `Derives p i r`
says that the words `i` begin with the phrase `p` and that the words `r` remain.  Trees are
those without tokens.  An operator tree without parentheses has on its left only operators
that bind at least as tightly and on its right only operators that bind more tightly.
-/

namespace Monkey

namespace Grammar

open Monkey.Parser (Precedence precedence greatestInteger)

/-- The phrases of the language. -/
inductive Phrase where
  /-- An expression that calls and indexes may follow. -/
  | primary (e : Node)
  /-- A primary behind any number of prefix operators. -/
  | unary (e : Node)
  /-- An expression whose operators outside parentheses bind at least as tightly as a
      level. -/
  | expression (level : Precedence) (e : Node)
  /-- Expressions from behind an opening token to its closing one. -/
  | items (closing : Kind) (es : List Node)
  /-- Expressions from a comma, or from the closing token. -/
  | moreItems (closing : Kind) (es : List Node)
  /-- Names from behind an opening parenthesis to its closing one. -/
  | parameters (names : List Name)
  /-- Names from a comma, or from the closing parenthesis. -/
  | moreParameters (names : List Name)
  /-- Pairs from behind an opening brace, or a comma, to the closing brace. -/
  | pairs (ps : List (Node × Node))
  /-- A block with its braces; the closing one may be missing at the end of the input. -/
  | block (b : Node)
  | statement (s : Node)
  | statements (ss : List Node)

/-- The kinds of the binary operators. -/
def IsBinary (kind : Kind) : Prop :=
  Precedence.lowest < precedence kind ∧ precedence kind < Precedence.prefixed

theorem isBinary_of_binds {kind : Kind} (h : Precedence.lowest < precedence kind)
    (hcall : kind ≠ .lparen) (hindex : kind ≠ .lbracket) : IsBinary kind := by
  refine ⟨h, ?_⟩
  cases kind <;> first | contradiction | decide

/-- The kinds of the prefix operators. -/
def IsPrefix (kind : Kind) : Prop := kind = .bang ∨ kind = .minus

theorem IsBinary.ne_eof {kind : Kind} (h : IsBinary kind) : kind ≠ .eof := by
  rintro rfl
  exact absurd h.1 (Nat.lt_irrefl _)

theorem IsPrefix.ne_eof {kind : Kind} (h : IsPrefix kind) : kind ≠ .eof := by
  rcases h with rfl | rfl <;> decide

/-- The next word, if there is one, satisfies a condition. -/
def Next (p : Kind → Prop) (r : List Word) : Prop := ∀ w ∈ r.head?, p w.kind

/-- No operator, call or index goes on with an expression that ends here. -/
def EndsHere (kind : Kind) : Prop := precedence kind = Precedence.lowest

/-- The end of a statement: a semicolon, or nothing where the next word goes on with
    neither the expression nor the statement. -/
inductive Terminates : List Word → List Word → Prop
  | semicolon {l : String} {r : List Word} : Terminates (⟨.semicolon, l⟩ :: r) r
  | absent {r : List Word} : Next (fun k => k ≠ .semicolon ∧ EndsHere k) r → Terminates r r

/-- The words `i` begin with a phrase, and the words `r` remain. -/
inductive Derives : Phrase → List Word → List Word → Prop
  | identifier {x : String} {r : List Word} :
      Derives (.primary (.identifier ⟨x, none⟩)) (⟨.ident, x⟩ :: r) r
  | integer {l : String} {n : Int} {r : List Word} :
      Numeral.read l = .ok n → n ≤ greatestInteger →
      Derives (.primary (.integer n none)) (⟨.int, l⟩ :: r) r
  | string {s : String} {r : List Word} :
      Derives (.primary (.string s none)) (⟨.string, s⟩ :: r) r
  | trueLiteral {l : String} {r : List Word} :
      Derives (.primary (.boolean true none)) (⟨.trueKeyword, l⟩ :: r) r
  | falseLiteral {l : String} {r : List Word} :
      Derives (.primary (.boolean false none)) (⟨.falseKeyword, l⟩ :: r) r
  | grouped {l l' : String} {e : Node} {i r : List Word} :
      Derives (.expression Precedence.lowest e) i (⟨.rparen, l'⟩ :: r) →
      Derives (.primary e) (⟨.lparen, l⟩ :: i) r
  | conditional {l l₁ l₂ : String} {c t : Node} {i j r : List Word} :
      Derives (.expression Precedence.lowest c) i (⟨.rparen, l₂⟩ :: j) →
      Derives (.block t) j r → Next (· ≠ .elseKeyword) r →
      Derives (.primary (.conditional c t none none)) (⟨.ifKeyword, l⟩ :: ⟨.lparen, l₁⟩ :: i) r
  | conditionalElse {l l₁ l₂ l₃ : String} {c t a : Node} {i j k r : List Word} :
      Derives (.expression Precedence.lowest c) i (⟨.rparen, l₂⟩ :: j) →
      Derives (.block t) j (⟨.elseKeyword, l₃⟩ :: k) → Derives (.block a) k r →
      Derives (.primary (.conditional c t (some a) none))
        (⟨.ifKeyword, l⟩ :: ⟨.lparen, l₁⟩ :: i) r
  | function {l l₁ : String} {names : List Name} {b : Node} {i j r : List Word} :
      Derives (.parameters names) i j → Derives (.block b) j r →
      Derives (.primary (.function names b none)) (⟨.function, l⟩ :: ⟨.lparen, l₁⟩ :: i) r
  | array {l : String} {es : List Node} {i r : List Word} :
      Derives (.items .rbracket es) i r →
      Derives (.primary (.array es none)) (⟨.lbracket, l⟩ :: i) r
  | hash {l : String} {ps : List (Node × Node)} {i r : List Word} :
      Derives (.pairs ps) i r → Derives (.primary (.hash ps none)) (⟨.lbrace, l⟩ :: i) r
  | call {l : String} {f : Node} {as : List Node} {i j r : List Word} :
      Derives (.primary f) i (⟨.lparen, l⟩ :: j) → Derives (.items .rparen as) j r →
      Derives (.primary (.call f as none)) i r
  | index {l l' : String} {e s : Node} {i j r : List Word} :
      Derives (.primary e) i (⟨.lbracket, l⟩ :: j) →
      Derives (.expression Precedence.lowest s) j (⟨.rbracket, l'⟩ :: r) →
      Derives (.primary (.index e s none)) i r
  | unprefixed {e : Node} {i r : List Word} : Derives (.primary e) i r → Derives (.unary e) i r
  | prefixed {kind : Kind} {o : String} {e : Node} {i r : List Word} : IsPrefix kind →
      Derives (.unary e) i r → Derives (.unary (.prefixed o e none)) (⟨kind, o⟩ :: i) r
  | operand {level : Precedence} {e : Node} {i r : List Word} :
      Derives (.unary e) i r → Derives (.expression level e) i r
  | binary {level : Precedence} {kind : Kind} {o : String} {e f : Node} {i j r : List Word} :
      IsBinary kind → level ≤ precedence kind →
      Derives (.expression (precedence kind) e) i (⟨kind, o⟩ :: j) →
      Derives (.expression (precedence kind + 1) f) j r →
      Derives (.expression level (.binary e o f none)) i r
  | noItems {closing : Kind} {l : String} {r : List Word} :
      Derives (.items closing []) (⟨closing, l⟩ :: r) r
  | items {closing : Kind} {e : Node} {es : List Node} {i j r : List Word} :
      Derives (.expression Precedence.lowest e) i j → Derives (.moreItems closing es) j r →
      Derives (.items closing (e :: es)) i r
  | noMoreItems {closing : Kind} {l : String} {r : List Word} :
      Derives (.moreItems closing []) (⟨closing, l⟩ :: r) r
  | moreItems {closing : Kind} {l : String} {e : Node} {es : List Node} {i j r : List Word} :
      Derives (.expression Precedence.lowest e) i j → Derives (.moreItems closing es) j r →
      Derives (.moreItems closing (e :: es)) (⟨.comma, l⟩ :: i) r
  | noParameters {l : String} {r : List Word} : Derives (.parameters []) (⟨.rparen, l⟩ :: r) r
  | parameters {x : String} {names : List Name} {i r : List Word} :
      Derives (.moreParameters names) i r →
      Derives (.parameters (⟨x, none⟩ :: names)) (⟨.ident, x⟩ :: i) r
  | noMoreParameters {l : String} {r : List Word} :
      Derives (.moreParameters []) (⟨.rparen, l⟩ :: r) r
  | moreParameters {l x : String} {names : List Name} {i r : List Word} :
      Derives (.moreParameters names) i r →
      Derives (.moreParameters (⟨x, none⟩ :: names)) (⟨.comma, l⟩ :: ⟨.ident, x⟩ :: i) r
  | noPairs {l : String} {r : List Word} : Derives (.pairs []) (⟨.rbrace, l⟩ :: r) r
  | lastPair {l l' : String} {k v : Node} {i j r : List Word} :
      Derives (.expression Precedence.lowest k) i (⟨.colon, l⟩ :: j) →
      Derives (.expression Precedence.lowest v) j (⟨.rbrace, l'⟩ :: r) →
      Derives (.pairs [(k, v)]) i r
  | pairs {l l' : String} {k v : Node} {ps : List (Node × Node)} {i j m r : List Word} :
      Derives (.expression Precedence.lowest k) i (⟨.colon, l⟩ :: j) →
      Derives (.expression Precedence.lowest v) j (⟨.comma, l'⟩ :: m) →
      Derives (.pairs ps) m r → Derives (.pairs ((k, v) :: ps)) i r
  | block {l l' : String} {ss : List Node} {i r : List Word} :
      Derives (.statements ss) i (⟨.rbrace, l'⟩ :: r) →
      Derives (.block (.block ss none)) (⟨.lbrace, l⟩ :: i) r
  | unclosedBlock {l : String} {ss : List Node} {i : List Word} :
      Derives (.statements ss) i [] → Derives (.block (.block ss none)) (⟨.lbrace, l⟩ :: i) []
  | letBinding {l l' x : String} {e : Node} {i j r : List Word} :
      Derives (.expression Precedence.lowest e) i j → Terminates j r →
      Derives (.statement (.letBinding ⟨x, none⟩ e none))
        (⟨.letKeyword, l⟩ :: ⟨.ident, x⟩ :: ⟨.assign, l'⟩ :: i) r
  | returning {l : String} {e : Node} {i j r : List Word} :
      Derives (.expression Precedence.lowest e) i j → Terminates j r →
      Derives (.statement (.returning e none)) (⟨.returnKeyword, l⟩ :: i) r
  | exprStatement {e : Node} {i j r : List Word} :
      Derives (.expression Precedence.lowest e) i j → Terminates j r →
      Derives (.statement (.exprStatement e none)) i r
  | noStatements {r : List Word} : Derives (.statements []) r r
  | statements {s : Node} {ss : List Node} {i j r : List Word} :
      Derives (.statement s) i j → Derives (.statements ss) j r →
      Derives (.statements (s :: ss)) i r

theorem next_cons {p : Kind → Prop} {w : Word} {r : List Word} (h : p w.kind) :
    Next p (w :: r) := by
  intro v hv
  rw [List.head?_cons, Option.mem_some] at hv
  rwa [← hv]

theorem Terminates.endsHere {j r : List Word} (h : Terminates j r) : Next EndsHere j := by
  cases h with
  | semicolon => exact next_cons rfl
  | absent hnext => exact fun w hw => (hnext w hw).2

theorem Derives.expression_anti {m level : Precedence} {e : Node} {i r : List Word}
    (hle : level ≤ m) (h : Derives (.expression m e) i r) :
    Derives (.expression level e) i r := by
  cases h with
  | operand h => exact .operand h
  | binary hk hm hl hr => exact .binary hk (Nat.le_trans hle hm) hl hr

/-- No binary operator binds as tightly as a prefix operator. -/
theorem Derives.unary_of_prefixed_le {level : Precedence} {e : Node} {i r : List Word}
    (hle : Precedence.prefixed ≤ level) (h : Derives (.expression level e) i r) :
    Derives (.unary e) i r := by
  cases h with
  | operand h => exact h
  | binary hk hm _ _ => exact absurd hk.2 (Nat.not_lt.mpr (Nat.le_trans hle hm))

/-! ## First words -/

/-- The kinds of the words that an expression may start with. -/
def Starts (kind : Kind) : Prop :=
  kind ∈ [.ident, .int, .string, .trueKeyword, .falseKeyword, .bang, .minus, .lparen,
    .ifKeyword, .function, .lbracket, .lbrace]

/-- The kinds of the words that a statement may start with. -/
def StartsStatement (kind : Kind) : Prop :=
  Starts kind ∨ kind = .letKeyword ∨ kind = .returnKeyword

/-- There is a first word, of a kind as demanded, and what remains comes after it. -/
def Consumes (p : Kind → Prop) (i r : List Word) : Prop :=
  ∃ w j, i = w :: j ∧ p w.kind ∧ r.length ≤ j.length

/-- How words begin with a phrase: with which words, and whether there is one. -/
def Phrase.Begins : Phrase → List Word → List Word → Prop
  | .primary _, i, r | .unary _, i, r | .expression _ _, i, r => Consumes Starts i r
  | .statement _, i, r => Consumes StartsStatement i r
  | .statements _, i, r => r.length ≤ i.length
  | _, i, r => r.length < i.length

theorem Consumes.lt {p : Kind → Prop} {i r : List Word} (h : Consumes p i r) :
    r.length < i.length := by
  obtain ⟨w, j, rfl, -, hle⟩ := h
  exact Nat.lt_succ_of_le hle

/-- What consumes a first word still does if less remains. -/
theorem Consumes.trans {p q : Kind → Prop} {i j r : List Word} (h : Consumes p i j)
    (hle : r.length ≤ j.length) (hpq : ∀ kind, p kind → q kind) : Consumes q i r := by
  obtain ⟨w, k, rfl, hw, hj⟩ := h
  exact ⟨w, k, rfl, hpq _ hw, Nat.le_trans hle hj⟩

theorem Phrase.Begins.le {p : Phrase} {i r : List Word} (h : p.Begins i r) :
    r.length ≤ i.length := by
  cases p with
  | primary | unary | expression | statement => exact Nat.le_of_lt (Consumes.lt h)
  | statements => exact h
  | _ => exact Nat.le_of_lt h

theorem Terminates.le {j r : List Word} (h : Terminates j r) : r.length ≤ j.length := by
  cases h with
  | semicolon => exact Nat.le_succ _
  | absent _ => exact Nat.le_refl _

theorem starts_of_isPrefix {kind : Kind} (h : IsPrefix kind) : Starts kind := by
  rcases h with rfl | rfl <;> simp [Starts]

theorem Derives.begins {p : Phrase} {i r : List Word} (h : Derives p i r) : p.Begins i r := by
  induction h with
  | identifier | integer | string | trueLiteral | falseLiteral =>
    exact ⟨_, _, rfl, by simp [Starts], Nat.le_refl _⟩
  | grouped _ ih => exact ⟨_, _, rfl, by simp [Starts], Nat.le_of_succ_le ih.le⟩
  | array _ ih | hash _ ih => exact ⟨_, _, rfl, by simp [Starts], ih.le⟩
  | conditional _ _ _ ih₁ ih₂ | function _ _ ih₁ ih₂ =>
    have hle₁ := ih₁.le
    have hle₂ := ih₂.le
    refine ⟨_, _, rfl, by simp [Starts], ?_⟩
    simp only [List.length_cons] at hle₁ ⊢
    omega
  | conditionalElse _ _ _ ih₁ ih₂ ih₃ =>
    have hle₁ := ih₁.le
    have hle₂ := ih₂.le
    have hle₃ := ih₃.le
    refine ⟨_, _, rfl, by simp [Starts], ?_⟩
    simp only [List.length_cons] at hle₁ hle₂ ⊢
    omega
  | call _ _ ih₁ ih₂ | index _ _ ih₁ ih₂ | binary _ _ _ _ ih₁ ih₂ =>
    have hle := ih₂.le
    exact ih₁.trans (by simp only [List.length_cons] at hle ⊢; omega) fun _ => id
  | unprefixed _ ih | operand _ ih => exact ih
  | prefixed hk _ ih => exact ⟨_, _, rfl, starts_of_isPrefix hk, ih.le⟩
  | noItems | noMoreItems | noParameters | noMoreParameters | noPairs => exact Nat.lt_succ_self _
  | items _ _ ih₁ ih₂ => exact Nat.lt_of_le_of_lt ih₂.le ih₁.lt
  | moreItems _ _ ih₁ ih₂ =>
    exact Nat.lt_succ_of_le (Nat.le_trans ih₂.le ih₁.le)
  | parameters _ ih => exact Nat.lt_succ_of_le ih.le
  | moreParameters _ ih => exact Nat.lt_succ_of_lt (Nat.lt_succ_of_le ih.le)
  | lastPair _ _ ih₁ ih₂ =>
    have hle₁ := ih₁.le
    have hle₂ := ih₂.le
    simp only [Phrase.Begins, List.length_cons] at hle₁ hle₂ ⊢
    omega
  | pairs _ _ _ ih₁ ih₂ ih₃ =>
    have hle₁ := ih₁.le
    have hle₂ := ih₂.le
    have hle₃ := ih₃.le
    simp only [Phrase.Begins, List.length_cons] at hle₁ hle₂ ⊢
    omega
  | block _ ih =>
    have hle := ih.le
    simp only [Phrase.Begins, List.length_cons] at hle ⊢
    omega
  | unclosedBlock _ _ => exact Nat.succ_pos _
  | letBinding _ ht ih =>
    have hle := Nat.le_trans ht.le ih.le
    exact ⟨_, _, rfl, .inr (.inl rfl), by simp only [List.length_cons]; omega⟩
  | returning _ ht ih => exact ⟨_, _, rfl, .inr (.inr rfl), Nat.le_trans ht.le ih.le⟩
  | exprStatement _ ht ih => exact ih.trans ht.le fun _ => .inl
  | noStatements => exact Nat.le_refl _
  | statements _ _ ih₁ ih₂ => exact Nat.le_trans ih₂.le ih₁.le

end Grammar

end Monkey
