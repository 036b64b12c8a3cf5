import Monkey.Proofs.Parser.Completeness
import Monkey.Proofs.Parser.Printing

/-!
# Ways of writing an expression

A tree can be written in many ways: parentheses may stand around every expression, any number
of them, and have to stand around those operands only that would be read otherwise without
them.  Whichever way a tree is written, the parser finds that tree and no mistake.
-/

namespace Monkey

namespace Grammar

open Monkey.Parser (Precedence precedence greatestInteger)

/-- The word of a symbol. -/
def symbol (kind : Kind) : Word := ⟨kind, kind.name⟩

/-- Where an expression stands: on its own, under a prefix operator, as what is called or
    indexed, or to the left or the right of a binary operator. -/
inductive Slot where
  | free
  | underPrefix
  | head
  | left (kind : Kind)
  | right (kind : Kind)

/-- The expressions that need parentheses in a slot.  Binary operators associate to the left,
    so one that binds as tightly as its context needs them on the right only. -/
def Slot.Encloses : Slot → Node → Prop
  | underPrefix, .binary .. => True
  | head, .binary .. | head, .prefixed .. => True
  | left kind, .binary _ o _ _ => precedence (Kind.ofName o) < precedence kind
  | right kind, .binary _ o _ _ => precedence (Kind.ofName o) ≤ precedence kind
  | _, _ => False

/-- Digits that spell a number.  Zeros may stand in front, as long as the digits are not more
    than can be read. -/
def SpellsNumber (l : String) (n : Nat) : Prop :=
  l.toList ≠ [] ∧ (∀ c ∈ l.toList, c.isDigit) ∧ l.toList.length ≤ Numeral.digitLimit ∧
    Nat.ofDigitChars 10 l.toList 0 = n

/-- What can be written. -/
inductive Part where
  /-- An expression without parentheses around it. -/
  | bare (e : Node)
  /-- An expression in a slot, in parentheses or not. -/
  | operand (slot : Slot) (e : Node)
  /-- Expressions, separated by commas. -/
  | items (es : List Node)
  /-- The pairs of a hash; a comma may follow the last. -/
  | pairs (ps : List (Node × Node))
  /-- A block with its braces. -/
  | block (b : Node)
  /-- A statement without its semicolon. -/
  | statement (s : Node)
  /-- Statements, each ended by a semicolon, which may be missing after the last. -/
  | statements (ss : List Node)

/-- The words that write a part of a tree. -/
inductive Written : Part → List Word → Prop
  | identifier {x : String} : Written (.bare (.identifier ⟨x, none⟩)) [⟨.ident, x⟩]
  | integer {l : String} {n : Nat} : SpellsNumber l n → (n : Int) ≤ greatestInteger →
      Written (.bare (.integer n none)) [⟨.int, l⟩]
  | string {s : String} : Written (.bare (.string s none)) [⟨.string, s⟩]
  | trueLiteral : Written (.bare (.boolean true none)) [⟨.trueKeyword, "true"⟩]
  | falseLiteral : Written (.bare (.boolean false none)) [⟨.falseKeyword, "false"⟩]
  | prefixed {kind : Kind} {e : Node} {i : List Word} : IsPrefix kind →
      Written (.operand .underPrefix e) i →
      Written (.bare (.prefixed kind.name e none)) (symbol kind :: i)
  | binary {kind : Kind} {e f : Node} {i j : List Word} : IsBinary kind →
      Written (.operand (.left kind) e) i → Written (.operand (.right kind) f) j →
      Written (.bare (.binary e kind.name f none)) (i ++ symbol kind :: j)
  | conditional {c t : Node} {i j : List Word} : Written (.operand .free c) i →
      Written (.block t) j →
      Written (.bare (.conditional c t none none))
        (⟨.ifKeyword, "if"⟩ :: symbol .lparen :: (i ++ symbol .rparen :: j))
  | conditionalElse {c t a : Node} {i j k : List Word} : Written (.operand .free c) i →
      Written (.block t) j → Written (.block a) k →
      Written (.bare (.conditional c t (some a) none))
        (⟨.ifKeyword, "if"⟩ :: symbol .lparen ::
          (i ++ symbol .rparen :: (j ++ ⟨.elseKeyword, "else"⟩ :: k)))
  | function {xs : List String} {b : Node} {i : List Word} : Written (.block b) i →
      Written (.bare (.function (xs.map fun x => ⟨x, none⟩) b none))
        (⟨.function, "fn"⟩ :: symbol .lparen ::
          ((xs.map fun x => ⟨.ident, x⟩).intersperse (symbol .comma) ++ symbol .rparen :: i))
  | call {f : Node} {as : List Node} {i j : List Word} : Written (.operand .head f) i →
      Written (.items as) j →
      Written (.bare (.call f as none)) (i ++ symbol .lparen :: (j ++ [symbol .rparen]))
  | index {e f : Node} {i j : List Word} : Written (.operand .head e) i →
      Written (.operand .free f) j →
      Written (.bare (.index e f none)) (i ++ symbol .lbracket :: (j ++ [symbol .rbracket]))
  | array {es : List Node} {i : List Word} : Written (.items es) i →
      Written (.bare (.array es none)) (symbol .lbracket :: (i ++ [symbol .rbracket]))
  | hash {ps : List (Node × Node)} {i : List Word} : Written (.pairs ps) i →
      Written (.bare (.hash ps none)) (symbol .lbrace :: (i ++ [symbol .rbrace]))
  | plain {slot : Slot} {e : Node} {i : List Word} : Written (.bare e) i →
      ¬ slot.Encloses e → Written (.operand slot e) i
  | parenthesised {slot : Slot} {e : Node} {i : List Word} : Written (.operand .free e) i →
      Written (.operand slot e) (symbol .lparen :: (i ++ [symbol .rparen]))
  | noItems : Written (.items []) []
  | item {e : Node} {i : List Word} : Written (.operand .free e) i → Written (.items [e]) i
  | items {e f : Node} {es : List Node} {i j : List Word} : Written (.operand .free e) i →
      Written (.items (f :: es)) j → Written (.items (e :: f :: es)) (i ++ symbol .comma :: j)
  | noPairs : Written (.pairs []) []
  | pair {k v : Node} {i j : List Word} : Written (.operand .free k) i →
      Written (.operand .free v) j → Written (.pairs [(k, v)]) (i ++ symbol .colon :: j)
  | pairs {k v : Node} {ps : List (Node × Node)} {i j m : List Word} :
      Written (.operand .free k) i → Written (.operand .free v) j → Written (.pairs ps) m →
      Written (.pairs ((k, v) :: ps)) (i ++ symbol .colon :: (j ++ symbol .comma :: m))
  | block {ss : List Node} {i : List Word} : Written (.statements ss) i →
      Written (.block (.block ss none)) (symbol .lbrace :: (i ++ [symbol .rbrace]))
  | letBinding {x : String} {e : Node} {i : List Word} : Written (.operand .free e) i →
      Written (.statement (.letBinding ⟨x, none⟩ e none))
        (⟨.letKeyword, "let"⟩ :: ⟨.ident, x⟩ :: symbol .assign :: i)
  | returning {e : Node} {i : List Word} : Written (.operand .free e) i →
      Written (.statement (.returning e none)) (⟨.returnKeyword, "return"⟩ :: i)
  | exprStatement {e : Node} {i : List Word} : Written (.operand .free e) i →
      Written (.statement (.exprStatement e none)) i
  | noStatements : Written (.statements []) []
  | lastStatement {s : Node} {i : List Word} : Written (.statement s) i →
      Written (.statements [s]) i
  | statements {s : Node} {ss : List Node} {i j : List Word} : Written (.statement s) i →
      Written (.statements ss) j → Written (.statements (s :: ss)) (i ++ symbol .semicolon :: j)

/-! ## Written trees are derived -/

/-- The phrase that a tree is without parentheses. -/
def barePhrase : Node → Phrase
  | .binary e o f t => .expression (precedence (Kind.ofName o)) (.binary e o f t)
  | .prefixed o e t => .unary (.prefixed o e t)
  | e => .primary e

/-- The phrase that a slot takes. -/
def Slot.phrase : Slot → Node → Phrase
  | free, e => .expression Precedence.lowest e
  | underPrefix, e => .unary e
  | head, e => .primary e
  | left kind, e => .expression (precedence kind) e
  | right kind, e => .expression (precedence kind + 1) e

variable {e : Node} {i r : List Word}

/-- A primary may stand in every slot. -/
theorem Slot.derives_of_primary (slot : Slot) (h : Derives (.primary e) i r) :
    Derives (slot.phrase e) i r := by
  cases slot with
  | head => exact h
  | underPrefix => exact .unprefixed h
  | _ => exact primary_at h

theorem derives_of_unary {level : Precedence} (h : Derives (.unary e) i r) :
    Derives (.expression level e) i r := .operand h

/-- An expression that needs no parentheses in a slot may stand there as it is. -/
theorem Slot.derives_of_bare {slot : Slot} (hslot : ¬ slot.Encloses e)
    (h : Derives (barePhrase e) i r) : Derives (slot.phrase e) i r := by
  cases e with
  | binary =>
    cases slot with
    | free => exact h.expression_anti (Parser.lowest_le_precedence _)
    | underPrefix | head => exact absurd trivial hslot
    | left kind => exact h.expression_anti (Nat.not_lt.mp hslot)
    | right kind => exact h.expression_anti (Nat.not_le.mp hslot)
  | prefixed =>
    cases slot with
    | underPrefix => exact h
    | head => exact absurd trivial hslot
    | _ => exact derives_of_unary h
  | _ => exact slot.derives_of_primary h

theorem ofName_name {kind : Kind} (h : IsBinary kind) : Kind.ofName kind.name = kind := by
  cases kind with
  | eq | notEq | lt | gt | plus | minus | slash | asterisk => rfl
  | other => exact absurd h.1 (Nat.lt_irrefl _)
  | _ => first | exact absurd h.1 (by decide) | exact absurd h.2 (by decide)

theorem read_of_spellsNumber {l : String} {n : Nat} (h : SpellsNumber l n) :
    Numeral.read l = .ok (n : Int) := by
  obtain ⟨hne, hdigits, hlength, hvalue⟩ := h
  rw [← String.ofList_toList (s := l), Numeral.read_digits hne hdigits,
    if_neg (Nat.not_lt.mpr hlength), Numeral.digitsValue_eq, hvalue]

/-- A list of expressions goes on with a comma as it begins. -/
theorem Derives.moreItems_of_items {closing : Kind} {l : String} {es : List Node}
    (h : Derives (.items closing (e :: es)) i r) :
    Derives (.moreItems closing (e :: es)) (⟨.comma, l⟩ :: i) r := by
  cases h with
  | items he hes => exact .moreItems he hes

theorem derives_moreParameters (xs : List String) (r : List Word) :
    Derives (.moreParameters (xs.map fun x => ⟨x, none⟩))
      ((xs.flatMap fun x => [symbol .comma, ⟨.ident, x⟩]) ++ symbol .rparen :: r) r := by
  induction xs with
  | nil => exact .noMoreParameters
  | cons x xs ih => exact .moreParameters ih

theorem derives_parameters (xs : List String) (r : List Word) :
    Derives (.parameters (xs.map fun x => ⟨x, none⟩))
      ((xs.map fun x => (⟨.ident, x⟩ : Word)).intersperse (symbol .comma) ++
        symbol .rparen :: r) r := by
  have hmore : ∀ (x : String) (xs : List String),
      ((x :: xs).map fun x => (⟨.ident, x⟩ : Word)).intersperse (symbol .comma) =
        ⟨.ident, x⟩ :: xs.flatMap fun x => [symbol .comma, ⟨.ident, x⟩] := by
    intro x xs
    induction xs generalizing x with
    | nil => rfl
    | cons y ys ih =>
      rw [List.map_cons, List.map_cons, List.intersperse_cons_cons, ← List.map_cons, ih]
      rfl
  cases xs with
  | nil => exact .noParameters
  | cons x xs =>
    rw [hmore]
    exact .parameters (derives_moreParameters xs r)

/-- Whatever follows, the words of a part begin the input with the phrase of that part. -/
def Part.Derived : Part → List Word → Prop
  | .bare e, i => ∀ r, Next (· ≠ .elseKeyword) r → Derives (barePhrase e) (i ++ r) r
  | .operand slot e, i => ∀ r, Next (· ≠ .elseKeyword) r → Derives (slot.phrase e) (i ++ r) r
  | .items es, i => ∀ closing r, closing ≠ .elseKeyword →
      Derives (.items closing es) (i ++ symbol closing :: r) r
  | .pairs ps, i => ∀ r, Derives (.pairs ps) (i ++ symbol .rbrace :: r) r
  | .block b, i => ∀ r, Derives (.block b) (i ++ r) r
  | .statement s, i => ∀ v r, Next (· ≠ .elseKeyword) v → Terminates v r →
      Derives (.statement s) (i ++ v) r
  | .statements ss, i => ∀ r, Closes r → Derives (.statements ss) (i ++ r) r

theorem Closes.terminates (h : Closes r) : Next (· ≠ .elseKeyword) r ∧ Terminates r r := by
  rcases h with rfl | ⟨l, j, rfl⟩
  · exact ⟨nofun, .absent nofun⟩
  · exact ⟨next_cons nofun, .absent (next_cons ⟨nofun, rfl⟩)⟩

theorem Written.derived {p : Part} {i : List Word} (h : Written p i) : p.Derived i := by
  induction h with
  | identifier => exact fun r _ => .identifier
  | integer hspells hle => exact fun r _ => .integer (read_of_spellsNumber hspells) hle
  | string => exact fun r _ => .string
  | trueLiteral => exact fun r _ => .trueLiteral
  | falseLiteral => exact fun r _ => .falseLiteral
  | prefixed hkind _ ih => exact fun r hr => .prefixed hkind (ih r hr)
  | @binary kind e f i j hkind _ _ ihe ihf =>
    intro r hr
    rw [List.append_assoc, List.cons_append, barePhrase, ofName_name hkind]
    have hne : kind ≠ .elseKeyword := fun h => absurd hkind.1 (by rw [h]; decide)
    exact .binary hkind le_rfl (ihe _ (next_cons hne)) (ihf r hr)
  | conditional _ _ ihc iht =>
    intro r hr
    rw [List.cons_append, List.cons_append, List.append_assoc, List.cons_append]
    exact .conditional (ihc _ (next_cons nofun)) (iht r) hr
  | conditionalElse _ _ _ ihc iht iha =>
    intro r _
    rw [List.cons_append, List.cons_append, List.append_assoc, List.cons_append,
      List.append_assoc, List.cons_append]
    exact .conditionalElse (ihc _ (next_cons nofun)) (iht _) (iha r)
  | function _ ih =>
    intro r _
    rw [List.cons_append, List.cons_append, List.append_assoc, List.cons_append]
    exact .function (derives_parameters _ _) (ih r)
  | call _ _ ihf ihs =>
    intro r _
    rw [List.append_assoc, List.cons_append, List.append_assoc]
    exact .call (ihf _ (next_cons nofun)) (ihs .rparen r nofun)
  | index _ _ ihe ihf =>
    intro r _
    rw [List.append_assoc, List.cons_append, List.append_assoc]
    exact .index (ihe _ (next_cons nofun)) (ihf _ (next_cons nofun))
  | array _ ih =>
    intro r _
    rw [List.cons_append, List.append_assoc]
    exact .array (ih .rbracket r nofun)
  | hash _ ih =>
    intro r _
    rw [List.cons_append, List.append_assoc]
    exact .hash (ih r)
  | plain _ hslot ih => exact fun r hr => Slot.derives_of_bare hslot (ih r hr)
  | @parenthesised slot _ _ _ ih =>
    intro r _
    rw [List.cons_append, List.append_assoc]
    exact slot.derives_of_primary (.grouped (ih _ (next_cons nofun)))
  | noItems => exact fun closing r _ => .noItems
  | item _ ih => exact fun closing r hne => .items (ih _ (next_cons hne)) .noMoreItems
  | items _ _ ihe ihs =>
    intro closing r hne
    rw [List.append_assoc, List.cons_append]
    exact .items (ihe _ (next_cons nofun)) (ihs closing r hne).moreItems_of_items
  | noPairs => exact fun r => .noPairs
  | pair _ _ ihk ihv =>
    intro r
    rw [List.append_assoc, List.cons_append]
    exact .lastPair (ihk _ (next_cons nofun)) (ihv _ (next_cons nofun))
  | pairs _ _ _ ihk ihv ihs =>
    intro r
    rw [List.append_assoc, List.cons_append, List.append_assoc, List.cons_append]
    exact .pairs (ihk _ (next_cons nofun)) (ihv _ (next_cons nofun)) (ihs r)
  | block _ ih =>
    intro r
    rw [List.cons_append, List.append_assoc]
    exact .block (ih _ (.inr ⟨_, _, rfl⟩))
  | letBinding _ ih => exact fun v r hv hend => .letBinding (ih v hv) hend
  | returning _ ih => exact fun v r hv hend => .returning (ih v hv) hend
  | exprStatement _ ih => exact fun v r hv hend => .exprStatement (ih v hv) hend
  | noStatements => exact fun r _ => .noStatements
  | lastStatement _ ih =>
    intro r hr
    exact .statements (ih r r hr.terminates.1 hr.terminates.2) .noStatements
  | statements _ _ ihs ihss =>
    intro r hr
    rw [List.append_assoc, List.cons_append]
    exact .statements (ihs _ _ (next_cons nofun) .semicolon) (ihss r hr)

/-! ## Every tree can be written -/

/-- In parentheses an expression may stand in every slot. -/
theorem Written.operand_of_bare (slot : Slot) (h : Written (.bare e) i) :
    Written (.operand slot e) (symbol .lparen :: (i ++ [symbol .rparen])) :=
  .parenthesised (.plain h id)

theorem exists_items {es : List Node} (h : ∀ e ∈ es, ∃ i, Written (.bare e.strip) i) :
    ∃ i, Written (.items (Node.stripAll es)) i := by
  induction es with
  | nil => exact ⟨[], .noItems⟩
  | cons e es ih =>
    rw [List.forall_mem_cons] at h
    obtain ⟨i, hi⟩ := h.1
    obtain ⟨j, hj⟩ := ih h.2
    cases es with
    | nil => exact ⟨_, .item (hi.operand_of_bare .free)⟩
    | cons f es => exact ⟨_, .items (hi.operand_of_bare .free) hj⟩

theorem exists_pairs {ps : List (Node × Node)}
    (hkeys : ∀ p ∈ ps, ∃ i, Written (.bare p.1.strip) i)
    (hvalues : ∀ p ∈ ps, ∃ i, Written (.bare p.2.strip) i) :
    ∃ i, Written (.pairs (Node.stripPairs ps)) i := by
  induction ps with
  | nil => exact ⟨[], .noPairs⟩
  | cons p ps ih =>
    rw [List.forall_mem_cons] at hkeys hvalues
    obtain ⟨i, hi⟩ := hkeys.1
    obtain ⟨j, hj⟩ := hvalues.1
    obtain ⟨m, hm⟩ := ih hkeys.2 hvalues.2
    exact ⟨_, .pairs (hi.operand_of_bare .free) (hj.operand_of_bare .free) hm⟩

theorem exists_statements {ss : List Node} (h : ∀ s ∈ ss, ∃ i, Written (.statement s.strip) i) :
    ∃ i, Written (.statements (Node.stripAll ss)) i := by
  induction ss with
  | nil => exact ⟨[], .noStatements⟩
  | cons s ss ih =>
    rw [List.forall_mem_cons] at h
    obtain ⟨i, hi⟩ := h.1
    obtain ⟨j, hj⟩ := ih h.2
    exact ⟨_, .statements hi hj⟩

theorem spellsNumber_repr {n : Nat} (h : (n : Int) ≤ greatestInteger) :
    SpellsNumber n.repr n := by
  have hdigits : ∀ c ∈ Nat.toDigits 10 n, c.isDigit := fun c hc =>
    Nat.isDigit_of_mem_toDigits (by decide) (by decide) hc
  have hlength := Numeral.length_toDigits_le (Int.ofNat_le.mp h)
  unfold SpellsNumber
  rw [Nat.toList_repr]
  exact ⟨Nat.toDigits_ne_nil, hdigits, hlength, Nat.ofDigitChars_ten_toDigits⟩

/-- The part that a tree is in its place. -/
def Place.part : Place → Node → Part
  | .expression => .bare
  | .block => .block
  | .statement => .statement

/-- Every tree that fits its place can be written there. -/
theorem exists_written {place : Place} (h : Fits place e) :
    ∃ i, Written (place.part e.strip) i := by
  induction h with
  | identifier => exact ⟨_, .identifier⟩
  | integer hn hle =>
    obtain ⟨n, rfl⟩ := Int.eq_ofNat_of_zero_le hn
    exact ⟨_, .integer (spellsNumber_repr hle) hle⟩
  | string => exact ⟨_, .string⟩
  | @boolean b =>
    cases b with
    | true => exact ⟨_, .trueLiteral⟩
    | false => exact ⟨_, .falseLiteral⟩
  | array _ ih =>
    obtain ⟨i, hi⟩ := exists_items ih
    exact ⟨_, .array hi⟩
  | hash _ _ ihk ihv =>
    obtain ⟨i, hi⟩ := exists_pairs ihk ihv
    exact ⟨_, .hash hi⟩
  | @function xs _ _ _ _ ih =>
    obtain ⟨i, hi⟩ := ih
    have hxs : xs.map Name.bare = (xs.map Name.value).map fun x => ⟨x, none⟩ := by
      rw [List.map_map]
      rfl
    rw [Node.strip, hxs]
    exact ⟨_, .function hi⟩
  | prefixed hkind _ ih =>
    obtain ⟨i, hi⟩ := ih
    exact ⟨_, .prefixed hkind (hi.operand_of_bare .underPrefix)⟩
  | binary hkind _ _ ihe ihf =>
    obtain ⟨i, hi⟩ := ihe
    obtain ⟨j, hj⟩ := ihf
    exact ⟨_, .binary hkind (hi.operand_of_bare _) (hj.operand_of_bare _)⟩
  | @conditional _ _ a _ _ _ _ ihc ihd iha =>
    obtain ⟨i, hi⟩ := ihc
    obtain ⟨j, hj⟩ := ihd
    cases a with
    | none => exact ⟨_, .conditional (hi.operand_of_bare .free) hj⟩
    | some a =>
      obtain ⟨k, hk⟩ := iha a rfl
      exact ⟨_, .conditionalElse (hi.operand_of_bare .free) hj hk⟩
  | call _ _ ihf iha =>
    obtain ⟨i, hi⟩ := ihf
    obtain ⟨j, hj⟩ := exists_items iha
    exact ⟨_, .call (hi.operand_of_bare .head) hj⟩
  | index _ _ ihe ihf =>
    obtain ⟨i, hi⟩ := ihe
    obtain ⟨j, hj⟩ := ihf
    exact ⟨_, .index (hi.operand_of_bare .head) (hj.operand_of_bare .free)⟩
  | block _ ih =>
    obtain ⟨i, hi⟩ := exists_statements ih
    exact ⟨_, .block hi⟩
  | letBinding _ _ ih =>
    obtain ⟨i, hi⟩ := ih
    exact ⟨_, .letBinding (hi.operand_of_bare .free)⟩
  | returning _ ih =>
    obtain ⟨i, hi⟩ := ih
    exact ⟨_, .returning (hi.operand_of_bare .free)⟩
  | exprStatement _ ih =>
    obtain ⟨i, hi⟩ := ih
    exact ⟨_, .exprStatement (hi.operand_of_bare .free)⟩

end Grammar

open Grammar

/-- However a tree is written as the only statement of a token stream, with no integer literal of
    more than 4300 digits in it, that tree is found and no mistake is reported. -/
theorem run_written {e : Node} {ws : List Word} {stream : TokenStream}
    (h : Written (.statements [.exprStatement e none]) ws) (hlast : EofLast stream.tokens)
    (hwords : wordsOf stream.tokens = ws) :
    ∃ p, Parser.run stream = .ok p ∧ p.errors = [] ∧
      Node.stripAll p.statements = [.exprStatement e none] := by
  have hderives := h.derived [] (.inl rfl)
  rw [List.append_nil, ← hwords] at hderives
  exact Parser.run_of_derives hlast hderives

theorem run_written_nested :
    let source := "a - (b - c) * -(fn(x) \x7b ((x)); \x7d(d))[0];"
    let a := Node.identifier ⟨"a", none⟩
    let b := Node.identifier ⟨"b", none⟩
    let c := Node.identifier ⟨"c", none⟩
    let d := Node.identifier ⟨"d", none⟩
    let body := Node.block [.exprStatement (.identifier ⟨"x", none⟩) none] none
    let call := Node.call (.function [⟨"x", none⟩] body none) [d] none
    let factor := Node.prefixed "-" (.index call (.integer 0 none) none) none
    let e := Node.binary a "-" (.binary (.binary b "-" c none) "*" factor none) none
    Written (.statements [.exprStatement e none]) (wordsOf (scan source)) ∧
      ∃ p, parse source = .ok p ∧ p.errors = [] ∧
        Node.stripAll p.statements = [.exprStatement e none] := by
  intro source a b c d body call factor e
  have name : ∀ x : String, Written (.bare (.identifier ⟨x, none⟩)) [⟨.ident, x⟩] :=
    fun x => .identifier
  have hbody : Written (.block body) _ :=
    .block (.statements (.exprStatement (.parenthesised (.parenthesised (.plain (name "x") id))))
      .noStatements)
  have hcall : Written (.bare call) _ :=
    .call (.plain (@Written.function ["x"] _ _ hbody) id) (.item (.plain (name "d") id))
  have hzero : Written (.bare (.integer 0 none)) [⟨.int, "0"⟩] :=
    .integer (@spellsNumber_repr 0 (by decide)) (by decide)
  have hindex : Written (.bare (.index call (.integer 0 none) none)) _ :=
    .index (hcall.operand_of_bare .head) (.plain hzero id)
  have hfactor : Written (.bare factor) _ := .prefixed (.inr rfl) (.plain hindex id)
  have hminus : IsBinary .minus := isBinary_of_binds (by decide) nofun nofun
  have hasterisk : IsBinary .asterisk := isBinary_of_binds (by decide) nofun nofun
  have hdifference : Written (.bare (.binary b "-" c none)) _ :=
    .binary hminus (.plain (name "b") id) (.plain (name "c") id)
  have hproduct : Written (.bare (.binary (.binary b "-" c none) "*" factor none)) _ :=
    .binary hasterisk (hdifference.operand_of_bare _) (.plain hfactor id)
  have hright : ¬ (Slot.right .minus).Encloses (.binary (.binary b "-" c none) "*" factor none) :=
    Nat.not_le.mpr (by decide)
  have hwhole : Written (.bare e) _ :=
    .binary hminus (.plain (name "a") id) (.plain hproduct hright)
  obtain ⟨ws, hwords, hwritten⟩ : ∃ ws, wordsOf (scan source) = ws ∧
      Written (.statements [.exprStatement e none]) ws :=
    ⟨_, by decide, .statements (.exprStatement (.plain hwhole id)) .noStatements⟩
  exact ⟨hwords ▸ hwritten, run_written hwritten (eofLast_scan source) hwords⟩

end Monkey
