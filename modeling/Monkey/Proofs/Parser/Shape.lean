import Monkey.Proofs.Numeral
import Monkey.Proofs.Parser.Lawful
import Monkey.Proofs.Token.Scan

/-!
# The shape of parsed trees

Whatever mistakes a source text has, the trees that are read from it have expressions,
blocks and statements in their places, names and operators that tokens spell, and integers
that literals spell.
-/

namespace Monkey

namespace Grammar

open Monkey.Parser (Precedence precedence greatestInteger)

/-- A name that the scanner reads as one identifier. -/
def IsName (x : String) : Prop := Scanner.IsWord x.toList ∧ Kind.ofWord x = .ident

/-- A tree fits a place: so do the trees within it, and its words can be written. -/
inductive Fits : Place → Node → Prop
  | identifier {x : Name} : IsName x.value → Fits .expression (.identifier x)
  | integer {n : Int} {t : Option Token} : 0 ≤ n → n ≤ greatestInteger →
      Fits .expression (.integer n t)
  | string {s : String} {t : Option Token} : Fits .expression (.string s t)
  | boolean {b : Bool} {t : Option Token} : Fits .expression (.boolean b t)
  | array {es : List Node} {t : Option Token} : (∀ e ∈ es, Fits .expression e) →
      Fits .expression (.array es t)
  | hash {ps : List (Node × Node)} {t : Option Token} :
      (∀ p ∈ ps, Fits .expression p.1) → (∀ p ∈ ps, Fits .expression p.2) →
      Fits .expression (.hash ps t)
  | function {xs : List Name} {b : Node} {t : Option Token} : (∀ x ∈ xs, IsName x.value) →
      Fits .block b → Fits .expression (.function xs b t)
  | prefixed {kind : Kind} {e : Node} {t : Option Token} : IsPrefix kind →
      Fits .expression e → Fits .expression (.prefixed kind.name e t)
  | binary {kind : Kind} {e f : Node} {t : Option Token} : IsBinary kind →
      Fits .expression e → Fits .expression f → Fits .expression (.binary e kind.name f t)
  | conditional {c d : Node} {a : Option Node} {t : Option Token} : Fits .expression c →
      Fits .block d → (∀ b ∈ a, Fits .block b) → Fits .expression (.conditional c d a t)
  | call {f : Node} {as : List Node} {t : Option Token} : Fits .expression f →
      (∀ a ∈ as, Fits .expression a) → Fits .expression (.call f as t)
  | index {e f : Node} {t : Option Token} : Fits .expression e → Fits .expression f →
      Fits .expression (.index e f t)
  | block {ss : List Node} {t : Option Token} : (∀ s ∈ ss, Fits .statement s) →
      Fits .block (.block ss t)
  | letBinding {x : Name} {e : Node} {t : Option Token} : IsName x.value →
      Fits .expression e → Fits .statement (.letBinding x e t)
  | returning {e : Node} {t : Option Token} : Fits .expression e →
      Fits .statement (.returning e t)
  | exprStatement {e : Node} {t : Option Token} : Fits .expression e →
      Fits .statement (.exprStatement e t)

/-- The trees within a tree fit their places, and a prefix operator is one of the two that
    there are. -/
def PartsFit : Node → Prop
  | .exprStatement e _ | .letBinding _ e _ | .returning e _ => Fits .expression e
  | .identifier _ | .integer .. | .string .. | .boolean .. => True
  | .array es _ => ∀ e ∈ es, Fits .expression e
  | .hash ps _ => (∀ p ∈ ps, Fits .expression p.1) ∧ ∀ p ∈ ps, Fits .expression p.2
  | .function _ b _ => Fits .block b
  | .prefixed o e _ => (o = "!" ∨ o = "-") ∧ Fits .expression e
  | .binary e _ f _ | .index e f _ => Fits .expression e ∧ Fits .expression f
  | .conditional c d a _ => Fits .expression c ∧ Fits .block d ∧ ∀ b ∈ a, Fits .block b
  | .call f as _ => Fits .expression f ∧ ∀ a ∈ as, Fits .expression a
  | .block ss _ => ∀ s ∈ ss, Fits .statement s
  | .program .. | .bare _ => False

theorem Fits.parts {place : Place} {n : Node} (h : Fits place n) : PartsFit n := by
  cases h with
  | identifier | integer | string | boolean => trivial
  | array hes => exact hes
  | hash hkeys hvalues => exact ⟨hkeys, hvalues⟩
  | function _ hb => exact hb
  | prefixed hkind he =>
    refine ⟨?_, he⟩
    rcases hkind with rfl | rfl
    · exact .inl rfl
    · exact .inr rfl
  | binary _ he hf | index he hf => exact ⟨he, hf⟩
  | conditional hc hd ha => exact ⟨hc, hd, ha⟩
  | call hf has => exact ⟨hf, has⟩
  | block hss => exact hss
  | letBinding _ he | returning he | exprStatement he => exact he

end Grammar

namespace Parser

open Grammar Scanner

/-- All tokens but ends of the input are spelt as their kinds demand. -/
def Spelt (ts : List Token) : Prop :=
  ∀ t ∈ ts, t.kind ≠ .eof → Spells t.kind t.literal.toList

theorem Spelt.suffix {ts us : List Token} (h : Spelt ts) (hs : us <:+ ts) : Spelt us :=
  fun t ht => h t (hs.subset ht)

theorem spelt_scan (source : String) : Spelt (scan source) := by
  obtain ⟨tokens, hscan, hspelt⟩ := scan_eq source
  intro t ht hne
  rw [hscan, List.mem_append, List.mem_singleton] at ht
  rcases ht with ht | rfl
  · exact hspelt t ht
  · exact absurd rfl hne

theorem Spelt.current {s : State} (h : Spelt s.rest) (hk : s.current.kind ≠ .eof) :
    Spells s.current.kind s.current.literal.toList :=
  h _ (State.current_mem_rest hk) hk

/-- An identifier token spells a name. -/
theorem isName_of_spells {x : String} (h : Spells .ident x.toList) : IsName x := by
  generalize hkind : Kind.ident = kind at h
  generalize hcs : x.toList = cs at h
  cases h with
  | word hword => exact ⟨hcs ▸ hword, by rw [hkind, ← hcs, String.ofList_toList]⟩
  | symbol hmem =>
    rw [← hkind] at hmem
    exact absurd hmem (by decide)
  | string | illegal | int => cases hkind

/-- An integer token spells digits. -/
theorem digits_of_spells {cs : List Char} (h : Spells .int cs) :
    cs ≠ [] ∧ cs.all Char.isDigit := by
  generalize hkind : Kind.int = kind at h
  cases h with
  | int hne hdigits => exact ⟨hne, hdigits⟩
  | word _ =>
    rcases Kind.ofWord_eq_ident_or_mem (String.ofList cs) with heq | ⟨entry, hmem, heq⟩
    · rw [heq] at hkind
      cases hkind
    · have hne : ∀ entry ∈ Kind.keywords, entry.2 ≠ .int := by decide
      exact absurd hkind.symm (by rw [heq] at hmem; exact hne _ hmem)
  | symbol hmem =>
    rw [← hkind] at hmem
    exact absurd hmem (by decide)
  | string | illegal => cases hkind

/-- A token that is an operator spells its kind. -/
theorem literal_of_symbol {kind : Kind} {l : String} (h : Spells kind l.toList)
    (hsymbol : kind ∈ Kind.symbols) : l = kind.name := by
  generalize hcs : l.toList = cs at h
  cases h with
  | symbol _ => exact String.toList_inj.mp hcs
  | word _ =>
    rcases Kind.ofWord_eq_ident_or_mem (String.ofList cs) with heq | ⟨entry, hmem, heq⟩
    · rw [heq] at hsymbol
      exact absurd hsymbol (by decide)
    · have hkind : ∀ entry ∈ Kind.keywords, entry.2 ∉ Kind.symbols := by decide
      exact absurd hsymbol (by rw [heq] at hmem; exact hkind _ hmem)
  | string | illegal | int => exact absurd hsymbol (by decide)

theorem ne_eof_of_symbol {kind : Kind} (h : kind ∈ Kind.symbols) : kind ≠ .eof := by
  rintro rfl
  exact absurd h (by decide)

theorem symbol_of_isBinary {kind : Kind} (h : IsBinary kind) : kind ∈ Kind.symbols := by
  cases kind <;> first | decide | exact absurd h.1 (Nat.lt_irrefl _)

theorem symbol_of_isPrefix {kind : Kind} (h : IsPrefix kind) : kind ∈ Kind.symbols := by
  rcases h with rfl | rfl <;> decide

/-- A token that is spelt as its kind demands, beside itself. -/
def SpeltTwice (t t' : Token) : Prop :=
  t = t' ∧ (t.kind ≠ .eof → Spells t.kind t.literal.toList)

theorem Spelt.tail {s : State} (h : Spelt s.rest) : Spelt s.advance.rest :=
  h.suffix (List.tail_suffix _)

theorem isName_of_named {x x' : Name} (h : Named SpeltTwice x x') : IsName x.value := by
  cases h with
  | ident hident ht => exact isName_of_spells (hident ▸ ht.2 (by rw [hident]; decide))

theorem literal_of_operator {t t' : Token} (h : SpeltTwice t t') (hsymbol : t.kind ∈ Kind.symbols) :
    t.literal = t.kind.name :=
  literal_of_symbol (h.2 (ne_eof_of_symbol hsymbol)) hsymbol

/-- What holds of all pairs holds of all their first parts. -/
theorem forall_mem_of_forall₂ {α β : Type} {q : α → β → Prop} {p : α → Prop} {xs : List α}
    {ys : List β} (h : List.Forall₂ q xs ys) (hqp : ∀ {x y}, q x y → p x) : ∀ x ∈ xs, p x :=
  ((List.forall₂_and_left xs ys).mp (h.imp fun _ _ hxy => ⟨hqp hxy, hxy⟩)).1

/-- What is built of trees that fit, and of tokens that are spelt as their kinds demand, fits. -/
theorem fits_of_built {place : Place} {n n' : Node}
    (h : Built SpeltTwice (fun place n _ => Fits place n) place n n') : Fits place n := by
  cases h with
  | identifier hx => exact .identifier (isName_of_named hx)
  | @integer _ t _ ht hint hread hle =>
    obtain ⟨hne, hdigits⟩ := digits_of_spells (hint ▸ ht.2 (by rw [hint]; decide))
    rw [← String.ofList_toList (s := t.literal)] at hread
    exact .integer (Numeral.nonneg_of_read_digits hne (List.all_eq_true.mp hdigits) hread) hle
  | string => exact .string
  | boolean => exact .boolean
  | array _ hes => exact .array (forall_mem_of_forall₂ hes id)
  | hash _ hps =>
    exact .hash (forall_mem_of_forall₂ hps And.left) (forall_mem_of_forall₂ hps And.right)
  | function _ hxs hb => exact .function (forall_mem_of_forall₂ hxs isName_of_named) hb
  | prefixed ht hoperator he =>
    rw [literal_of_operator ht (symbol_of_isPrefix hoperator)]
    exact .prefixed hoperator he
  | binary ht hbinary he hf =>
    rw [literal_of_operator ht (symbol_of_isBinary hbinary)]
    exact .binary hbinary he hf
  | conditional _ hc hd ha =>
    refine .conditional hc hd ?_
    cases ha with
    | none => exact fun _ hb => nomatch hb
    | some ha => exact fun _ hb => Option.some.inj hb ▸ ha
  | call _ hf has => exact .call hf (forall_mem_of_forall₂ has id)
  | index _ he hf => exact .index he hf
  | block _ hss => exact .block (forall_mem_of_forall₂ hss id)
  | letBinding _ hx he => exact .letBinding (isName_of_named hx) he
  | returning _ he => exact .returning he
  | exprStatement _ he => exact .exprStatement he

/-- The law of a parse of which all trees fit. -/
def Law.fits : Law where
  World := Unit
  stand _ _ s s' := s = s' ∧ Spelt s.rest
  token := SpeltTwice
  node place n _ := Fits place n
  refused _ := True
  kind_eq h := h.1 ▸ rfl
  literal_eq h _ := h.1 ▸ rfl
  built := fits_of_built
  current h := ⟨h.1 ▸ rfl, h.2.current⟩
  upcoming {_ _ s _} h := ⟨h.1 ▸ rfl, Spelt.current (s := s.advance) h.2.tail⟩
  read h _ := h
  advance := by rintro _ _ _ ⟨rfl, h⟩; exact ⟨rfl, h.tail⟩
  began := by rintro _ _ _ _ _ _ ⟨rfl, h⟩; exact ⟨rfl, h⟩
  integer h _ _ _ := h
  outOfRange := by rintro _ _ _ _ ⟨rfl, h⟩ _ _ _; exact ⟨rfl, h⟩
  refuses _ _ _ := trivial
  noExpression := by rintro _ _ _ ⟨rfl, h⟩ _; exact ⟨rfl, h⟩
  unexpected := by rintro _ _ _ _ ⟨rfl, h⟩ _ _; exact ⟨rfl, h⟩
  body := by rintro _ _ _ ⟨rfl, h⟩; exact ⟨rfl, h.tail⟩
  ended h _ := h
  attempted := by
    rintro _ _ _ ⟨rfl, h⟩ _
    refine ⟨(), ⟨rfl, h⟩, ?_, ?_⟩ <;>
    · rintro _ _ ⟨rfl, ht⟩
      exact ⟨rfl, ht.tail⟩

/-- The statements of a parsed source text fit, whatever mistakes it has. -/
theorem parse_fits {source : String} {p : Parse} (h : parse source = .ok p) :
    ∀ n ∈ p.statements, Fits .statement n := by
  let start : State := .ofStream (.ofSource source)
  have hstart : Law.fits.stand () .turn start start := ⟨rfl, spelt_scan source⟩
  rcases Law.fits.run_ends hstart with ⟨ss, ss', t, t', hrun, -, -, hss⟩ | ⟨refusal, hrun, -⟩
  · cases h.symm.trans hrun
    exact forall_mem_of_forall₂ hss id
  · cases h.symm.trans hrun

end Parser

end Monkey
