import Monkey.Proofs.Parser.Derivation

/-!
# Derivations one after the other

The words of one program may be followed by those of another, if the first ends in a semicolon
and has as many closing braces as opening ones.  Then no block of it is left open, its last
semicolon ends its last statement, and nothing in it depends on what follows.
-/

namespace Monkey

namespace Grammar

open Monkey.Parser (Precedence precedence greatestInteger)

/-! ## Braces -/

/-- How many more opening braces than closing ones there are. -/
def excess (i : List Word) : Int :=
  (i.countP (·.kind = .lbrace) : Int) - i.countP (·.kind = .rbrace)

@[simp] theorem excess_nil : excess [] = 0 := rfl

theorem excess_append (i j : List Word) : excess (i ++ j) = excess i + excess j := by
  simp only [excess, List.countP_append]
  omega

theorem excess_lbrace (l : String) (i : List Word) :
    excess (⟨.lbrace, l⟩ :: i) = excess i + 1 := by
  simp [excess]
  omega

theorem excess_rbrace (l : String) (i : List Word) :
    excess (⟨.rbrace, l⟩ :: i) = excess i - 1 := by
  simp [excess]
  omega

/-- The kind of a legal word that is no brace. -/
abbrev IsPlain (kind : Kind) : Prop := kind ∉ [.illegal, .lbrace, .rbrace]

theorem excess_plain {kind : Kind} {l : String} (hk : IsPlain kind) (i : List Word) :
    excess (⟨kind, l⟩ :: i) = excess i := by
  have hlbrace : kind ≠ .lbrace := fun h => hk (by simp [h])
  have hrbrace : kind ≠ .rbrace := fun h => hk (by simp [h])
  simp [excess, hlbrace, hrbrace]

/-- The words `r` end the words `i`, the words before them are legal, and at most as many of
    these are closing braces as there are opening ones and braces owed. -/
def Spans (debt : Nat) (i r : List Word) : Prop :=
  ∃ c, i = c ++ r ∧ (∀ w ∈ c, w.kind ≠ .illegal) ∧ 0 ≤ excess c + debt

namespace Spans

variable {debt debt' : Nat} {i j r : List Word}

theorem refl (r : List Word) : Spans 0 r r := ⟨[], rfl, by simp, by simp⟩

theorem trans (hij : Spans debt i j) (hjr : Spans debt' j r) : Spans (debt + debt') i r := by
  obtain ⟨c, rfl, hc, hcount⟩ := hij
  obtain ⟨d, rfl, hd, hcount'⟩ := hjr
  refine ⟨c ++ d, by rw [List.append_assoc], List.forall_mem_append.mpr ⟨hc, hd⟩, ?_⟩
  rw [excess_append]
  omega

theorem plain {kind : Kind} {l : String} (hk : IsPlain kind) (h : Spans debt i r) :
    Spans debt (⟨kind, l⟩ :: i) r := by
  obtain ⟨c, rfl, hc, hcount⟩ := h
  refine ⟨_ :: c, rfl, List.forall_mem_cons.mpr ⟨?_, hc⟩, ?_⟩
  · rintro rfl
    exact hk (List.mem_cons_self ..)
  · rwa [excess_plain hk]

theorem word {kind : Kind} {l : String} (hk : IsPlain kind) (r : List Word) :
    Spans 0 (⟨kind, l⟩ :: r) r :=
  (refl r).plain hk

theorem lbrace {l : String} (h : Spans (debt + 1) i r) : Spans debt (⟨.lbrace, l⟩ :: i) r := by
  obtain ⟨c, rfl, hc, hcount⟩ := h
  refine ⟨_ :: c, rfl, List.forall_mem_cons.mpr ⟨nofun, hc⟩, ?_⟩
  rw [excess_lbrace]
  omega

theorem rbrace (l : String) (r : List Word) : Spans 1 (⟨.rbrace, l⟩ :: r) r :=
  ⟨[⟨.rbrace, l⟩], rfl, by simp, by rw [excess_rbrace]; simp⟩

theorem weaken (h : Spans debt i r) (hle : debt ≤ debt') : Spans debt' i r := by
  obtain ⟨c, rfl, hc, hcount⟩ := h
  exact ⟨c, rfl, hc, by omega⟩

end Spans

/-- Lists are closed by a parenthesis or a bracket. -/
def Phrase.Proper : Phrase → Prop
  | .items closing _ | .moreItems closing _ => closing = .rparen ∨ closing = .rbracket
  | _ => True

/-- How many braces a phrase closes that it does not open. -/
def Phrase.debt : Phrase → Nat
  | .pairs _ => 1
  | _ => 0

theorem Terminates.spans {i r : List Word} (h : Terminates i r) : Spans 0 i r := by
  cases h with
  | semicolon => exact .word (by decide) _
  | absent _ => exact .refl _

theorem isPlain_of_isPrefix {kind : Kind} (h : IsPrefix kind) : IsPlain kind := by
  rcases h with rfl | rfl <;> decide

theorem isPlain_of_isBinary {kind : Kind} (h : IsBinary kind) : IsPlain kind := by
  intro hmem
  simp only [List.mem_cons, List.not_mem_nil, or_false] at hmem
  rcases hmem with rfl | rfl | rfl <;> exact absurd h.1 (Nat.lt_irrefl _)

theorem isPlain_of_closing {closing : Kind} (h : closing = .rparen ∨ closing = .rbracket) :
    IsPlain closing := by
  rcases h with rfl | rfl <;> decide

/-- What remains of the words is their end, no word before it is illegal, and no brace is
    closed there but those opened there, and the one that pairs owe. -/
theorem Derives.spans {p : Phrase} {i r : List Word} (h : Derives p i r) (hp : p.Proper) :
    Spans p.debt i r := by
  induction h with
  | identifier | integer | string | trueLiteral | falseLiteral =>
    exact .word (by decide) _
  | grouped _ ih => exact ((ih trivial).trans (.word (by decide) _)).plain (by decide)
  | conditional _ _ _ ihc iht =>
    have hcondition := (ihc trivial).trans (.word (by decide) _)
    exact ((hcondition.trans (iht trivial)).plain (by decide)).plain (by decide)
  | conditionalElse _ _ _ ihc iht iha =>
    have hcondition := (ihc trivial).trans (.word (by decide) _)
    have hbranches := (iht trivial).trans (.plain (by decide) (iha trivial))
    exact ((hcondition.trans hbranches).plain (by decide)).plain (by decide)
  | function _ _ ihs ihb =>
    exact (((ihs trivial).trans (ihb trivial)).plain (by decide)).plain (by decide)
  | array _ ih => exact (ih (.inr rfl)).plain (by decide)
  | hash _ ih => exact .lbrace (ih trivial)
  | call _ _ ihf ihs =>
    exact (ihf trivial).trans (.plain (by decide) (ihs (.inl rfl)))
  | index _ _ ihe ihs =>
    have hsubscript := (ihs trivial).trans (.word (by decide) _)
    exact (ihe trivial).trans (.plain (by decide) hsubscript)
  | unprefixed _ ih | operand _ ih => exact ih trivial
  | prefixed hk _ ih => exact (ih trivial).plain (isPlain_of_isPrefix hk)
  | binary hk _ _ _ ihe ihf =>
    exact (ihe trivial).trans (.plain (isPlain_of_isBinary hk) (ihf trivial))
  | noItems | noMoreItems => exact .word (isPlain_of_closing hp) _
  | items _ _ ihe ihs => exact (ihe trivial).trans (ihs hp)
  | moreItems _ _ ihe ihs => exact .plain (by decide) ((ihe trivial).trans (ihs hp))
  | noParameters | noMoreParameters => exact .word (by decide) _
  | parameters _ ih => exact (ih trivial).plain (by decide)
  | moreParameters _ ih => exact ((ih trivial).plain (by decide)).plain (by decide)
  | noPairs => exact .rbrace _ _
  | lastPair _ _ ihk ihv =>
    have hvalue := (ihv trivial).trans (.rbrace _ _)
    exact (ihk trivial).trans (.plain (by decide) hvalue)
  | pairs _ _ _ ihk ihv ihs =>
    have hvalue := (ihv trivial).trans (.plain (by decide) (ihs trivial))
    exact (ihk trivial).trans (.plain (by decide) hvalue)
  | block _ ih => exact .lbrace ((ih trivial).trans (.rbrace _ _))
  | unclosedBlock _ ih => exact .lbrace ((ih trivial).weaken (Nat.zero_le _))
  | letBinding _ hend ih =>
    have hvalue := (ih trivial).trans hend.spans
    exact ((hvalue.plain (by decide)).plain (by decide)).plain (by decide)
  | returning _ hend ih => exact ((ih trivial).trans hend.spans).plain (by decide)
  | exprStatement _ hend ih => exact (ih trivial).trans hend.spans
  | noStatements => exact .refl _
  | statements _ _ ihs ihss => exact (ihs trivial).trans (ihss trivial)

/-! ## The last semicolon -/

/-- The last word is a semicolon. -/
def EndsStatement (i : List Word) : Prop := ∃ w ∈ i.getLast?, w.kind = .semicolon

theorem not_endsStatement {c : List Word} {w : Word} (hw : w.kind ≠ .semicolon) :
    ¬ EndsStatement (c ++ [w]) := by
  rintro ⟨v, hv, hkind⟩
  rw [List.getLast?_concat, Option.mem_some] at hv
  exact hw (hv ▸ hkind)

theorem EndsStatement.of_append {c j : List Word} (h : EndsStatement (c ++ j)) (hj : j ≠ []) :
    EndsStatement j := by
  obtain ⟨d, v, rfl⟩ := (List.eq_nil_or_concat j).resolve_left hj
  obtain ⟨w, hw, hkind⟩ := h
  rw [List.concat_eq_append, ← List.append_assoc, List.getLast?_concat] at hw
  exact ⟨w, by rwa [List.concat_eq_append, List.getLast?_concat], hkind⟩

namespace Spans

variable {debt debt' : Nat} {i j : List Word} {w : Word}

theorem not_endsStatement (h : Spans debt i [w]) (hw : w.kind ≠ .semicolon) :
    ¬ EndsStatement i := by
  obtain ⟨c, rfl, -, -⟩ := h
  exact Grammar.not_endsStatement hw

theorem endsStatement (h : Spans debt i j) (hj : j ≠ []) (hend : EndsStatement i) :
    EndsStatement j := by
  obtain ⟨c, rfl, -, -⟩ := h
  exact hend.of_append hj

/-- Braces that the last words leave open are open at the end of all words. -/
theorem excess_pos (h : Spans debt i j) (hj : j ≠ []) (hend : EndsStatement i)
    (hlast : EndsStatement j → 0 < excess j + debt') : 0 < excess i + (debt + debt' : Nat) := by
  have hlast := hlast (h.endsStatement hj hend)
  obtain ⟨c, rfl, -, hcount⟩ := h
  rw [excess_append]
  omega

end Spans

theorem ne_nil_of_consumes {p : Kind → Prop} {i r : List Word} (h : Consumes p i r) : i ≠ [] :=
  List.ne_nil_of_length_pos (Nat.zero_lt_of_lt h.lt)

/-- Statements end in semicolons; other phrases do only through the statements of a block. -/
def Phrase.IsInner : Phrase → Prop
  | .statement _ | .statements _ => False
  | _ => True

theorem Derives.ne_nil {p : Phrase} {i r : List Word} (h : Derives p i r) (hp : p.IsInner) :
    i ≠ [] := by
  have hbegins := h.begins
  cases p with
  | statement | statements => exact hp.elim
  | primary | unary | expression => exact ne_nil_of_consumes hbegins
  | _ => exact List.ne_nil_of_length_pos (Nat.zero_lt_of_lt hbegins)

/-- A phrase within a statement ends in a semicolon only if a block in it is left open. -/
theorem Derives.excess_pos {p : Phrase} {i r : List Word} (h : Derives p i r) (hp : p.Proper)
    (hinner : p.IsInner) (hr : r = []) (hend : EndsStatement i) : 0 < excess i + p.debt := by
  induction h with
  | identifier | integer | string | trueLiteral | falseLiteral =>
    subst hr
    exact absurd hend (not_endsStatement (c := []) nofun)
  | grouped h _ =>
    subst hr
    exact absurd hend (((h.spans trivial).plain (by decide)).not_endsStatement nofun)
  | conditional hc ht _ _ iht =>
    have hcondition := (hc.spans trivial).trans (.word (by decide) _)
    exact ((hcondition.plain (by decide)).plain (by decide)).excess_pos
      (ht.ne_nil trivial) hend (iht trivial trivial hr)
  | conditionalElse hc ht ha _ _ iha =>
    have hcondition := (hc.spans trivial).trans (.word (by decide) _)
    have hbranch := (ht.spans trivial).trans (.word (by decide) _)
    exact (((hcondition.trans hbranch).plain (by decide)).plain (by decide)).excess_pos
      (ha.ne_nil trivial) hend (iha trivial trivial hr)
  | function hxs hb _ ihb =>
    exact (((hxs.spans trivial).plain (by decide)).plain (by decide)).excess_pos
      (hb.ne_nil trivial) hend (ihb trivial trivial hr)
  | array h ih =>
    exact (Spans.word (by decide) _).excess_pos (h.ne_nil trivial) hend
      (ih (.inr rfl) trivial hr)
  | hash h ih =>
    have hpairs := ih trivial trivial hr (hend.of_append (c := [_]) (h.ne_nil trivial))
    rw [excess_lbrace]
    simp only [Phrase.debt] at hpairs ⊢
    omega
  | call hf hs _ ihs =>
    exact ((hf.spans trivial).trans (.word (by decide) _)).excess_pos
      (hs.ne_nil trivial) hend (ihs (.inl rfl) trivial hr)
  | index he hs _ _ =>
    subst hr
    have hspans := (he.spans trivial).trans (.plain (by decide) (hs.spans trivial))
    exact absurd hend (hspans.not_endsStatement nofun)
  | unprefixed _ ih | operand _ ih => exact ih trivial trivial hr hend
  | prefixed hk h ih =>
    exact (Spans.word (isPlain_of_isPrefix hk) _).excess_pos (h.ne_nil trivial) hend
      (ih trivial trivial hr)
  | binary hk _ he hf _ ihf =>
    exact ((he.spans trivial).trans (.word (isPlain_of_isBinary hk) _)).excess_pos
      (hf.ne_nil trivial) hend (ihf trivial trivial hr)
  | noItems | noMoreItems =>
    subst hr
    refine absurd hend (not_endsStatement (c := []) ?_)
    rcases hp with rfl | rfl <;> nofun
  | items he hs _ ihs =>
    exact (he.spans trivial).excess_pos (hs.ne_nil trivial) hend (ihs hp trivial hr)
  | moreItems he hs _ ihs =>
    exact ((he.spans trivial).plain (by decide)).excess_pos (hs.ne_nil trivial) hend
      (ihs hp trivial hr)
  | noParameters | noMoreParameters | noPairs =>
    subst hr
    exact absurd hend (not_endsStatement (c := []) nofun)
  | parameters h ih =>
    exact (Spans.word (by decide) _).excess_pos (h.ne_nil trivial) hend
      (ih trivial trivial hr)
  | moreParameters h ih =>
    exact ((Spans.word (by decide) _).plain (by decide)).excess_pos
      (h.ne_nil trivial) hend (ih trivial trivial hr)
  | lastPair hk hv _ _ =>
    subst hr
    have hspans := (hk.spans trivial).trans (.plain (by decide) (hv.spans trivial))
    exact absurd hend (hspans.not_endsStatement nofun)
  | pairs hk hv hs _ _ ihs =>
    have hvalue := (hv.spans trivial).trans (.word (by decide) _)
    exact ((hk.spans trivial).trans (.plain (by decide) hvalue)).excess_pos
      (hs.ne_nil trivial) hend (ihs trivial trivial hr)
  | block h _ =>
    subst hr
    obtain ⟨c, rfl, -, -⟩ := h.spans trivial
    exact absurd hend (not_endsStatement (c := _ :: c) nofun)
  | unclosedBlock h _ =>
    obtain ⟨c, rfl, -, hcount⟩ := h.spans trivial
    rw [excess_lbrace, List.append_nil]
    simp only [Phrase.debt] at hcount ⊢
    omega
  | letBinding | returning | exprStatement | noStatements | statements => exact hinner.elim

/-! ## More words behind -/

theorem Next.append {p : Kind → Prop} {r : List Word} (h : Next p r) (hr : r ≠ [])
    (k : List Word) : Next p (r ++ k) := by
  obtain ⟨w, j, rfl⟩ := List.exists_cons_of_ne_nil hr
  exact next_cons (h w rfl)

theorem Terminates.append {i r : List Word} (h : Terminates i r) (hr : r ≠ []) (k : List Word) :
    Terminates (i ++ k) (r ++ k) := by
  cases h with
  | semicolon => exact .semicolon
  | absent hnext => exact .absent (hnext.append hr k)

theorem ne_nil_of_length_le {i r : List Word} (h : r.length ≤ i.length) (hr : r ≠ []) :
    i ≠ [] := by
  rintro rfl
  exact hr (List.eq_nil_of_length_eq_zero (Nat.le_zero.mp h))

/-- Where words remain, more words may stand behind them. -/
theorem Derives.append {p : Phrase} {i r : List Word} (h : Derives p i r) (hr : r ≠ [])
    (k : List Word) : Derives p (i ++ k) (r ++ k) := by
  induction h with
  | identifier => exact .identifier
  | integer hread hle => exact .integer hread hle
  | string => exact .string
  | trueLiteral => exact .trueLiteral
  | falseLiteral => exact .falseLiteral
  | grouped _ ih => exact .grouped (ih nofun)
  | conditional _ _ hnext ihc iht => exact .conditional (ihc nofun) (iht hr) (hnext.append hr k)
  | conditionalElse _ _ _ ihc iht iha => exact .conditionalElse (ihc nofun) (iht nofun) (iha hr)
  | function _ hb ihs ihb =>
    exact .function (ihs (ne_nil_of_length_le hb.begins.le hr)) (ihb hr)
  | array _ ih => exact .array (ih hr)
  | hash _ ih => exact .hash (ih hr)
  | call _ _ ihf ihs => exact .call (ihf nofun) (ihs hr)
  | index _ _ ihe ihs => exact .index (ihe nofun) (ihs nofun)
  | unprefixed _ ih => exact .unprefixed (ih hr)
  | prefixed hk _ ih => exact .prefixed hk (ih hr)
  | operand _ ih => exact .operand (ih hr)
  | binary hk hle _ _ ihe ihf => exact .binary hk hle (ihe nofun) (ihf hr)
  | noItems => exact .noItems
  | items _ hs ihe ihs => exact .items (ihe (ne_nil_of_length_le hs.begins.le hr)) (ihs hr)
  | noMoreItems => exact .noMoreItems
  | moreItems _ hs ihe ihs =>
    exact .moreItems (ihe (ne_nil_of_length_le hs.begins.le hr)) (ihs hr)
  | noParameters => exact .noParameters
  | parameters _ ih => exact .parameters (ih hr)
  | noMoreParameters => exact .noMoreParameters
  | moreParameters _ ih => exact .moreParameters (ih hr)
  | noPairs => exact .noPairs
  | lastPair _ _ ihk ihv => exact .lastPair (ihk nofun) (ihv nofun)
  | pairs _ _ _ ihk ihv ihs => exact .pairs (ihk nofun) (ihv nofun) (ihs hr)
  | block _ ih => exact .block (ih nofun)
  | unclosedBlock _ _ => exact absurd rfl hr
  | letBinding _ hend ih =>
    exact .letBinding (ih (ne_nil_of_length_le hend.le hr)) (hend.append hr k)
  | returning _ hend ih =>
    exact .returning (ih (ne_nil_of_length_le hend.le hr)) (hend.append hr k)
  | exprStatement _ hend ih =>
    exact .exprStatement (ih (ne_nil_of_length_le hend.le hr)) (hend.append hr k)
  | noStatements => exact .noStatements
  | statements _ hss ihs ihss =>
    exact .statements (ihs (ne_nil_of_length_le hss.begins.le hr)) (ihss hr)

/-- The last semicolon of closed words ends a statement, whatever stands behind it. -/
theorem Derives.terminates {level : Precedence} {e : Node} {i j : List Word}
    (h : Derives (.expression level e) i j) (hj : Terminates j []) (hcount : excess i = 0)
    (hend : EndsStatement i) (k : List Word) :
    ∃ v, Derives (.expression level e) (i ++ k) v ∧ Terminates v k := by
  cases hj with
  | semicolon => exact ⟨_, h.append nofun k, .semicolon⟩
  | absent _ =>
    have hpos := h.excess_pos trivial trivial rfl hend
    rw [hcount] at hpos
    exact absurd hpos (Int.lt_irrefl _)

theorem Derives.statement_append {s : Node} {i : List Word} (h : Derives (.statement s) i [])
    (hcount : excess i = 0) (hend : EndsStatement i) (k : List Word) :
    Derives (.statement s) (i ++ k) k := by
  cases h with
  | @letBinding l l' x _ i _ _ he hterminates =>
    have hi : EndsStatement i :=
      hend.of_append (c := [⟨.letKeyword, l⟩, ⟨.ident, x⟩, ⟨.assign, l'⟩]) (he.ne_nil trivial)
    rw [excess_plain (by decide), excess_plain (by decide), excess_plain (by decide)] at hcount
    obtain ⟨v, hv, hk⟩ := he.terminates hterminates hcount hi k
    exact .letBinding hv hk
  | @returning l _ i _ _ he hterminates =>
    have hi : EndsStatement i := hend.of_append (c := [⟨.returnKeyword, l⟩]) (he.ne_nil trivial)
    rw [excess_plain (by decide)] at hcount
    obtain ⟨v, hv, hk⟩ := he.terminates hterminates hcount hi k
    exact .returning hv hk
  | exprStatement he hterminates =>
    obtain ⟨v, hv, hk⟩ := he.terminates hterminates hcount hend k
    exact .exprStatement hv hk

/-- The words of some statements, closed and ended by a semicolon, and then the words of
    others. -/
theorem Derives.statements_append {ss ss' : List Node} {i k : List Word}
    (h : Derives (.statements ss) i []) (hcount : excess i = 0) (hend : i ≠ [] → EndsStatement i)
    (h' : Derives (.statements ss') k []) : Derives (.statements (ss ++ ss')) (i ++ k) [] := by
  induction ss generalizing i with
  | nil =>
    cases h with
    | noStatements => exact h'
  | cons s ss ih =>
    cases h with
    | @statements _ _ _ j _ hs hss =>
      have hi : EndsStatement i := hend (ne_nil_of_consumes hs.begins)
      by_cases hj : j = []
      · subst hj
        cases hss with
        | noStatements => exact .statements (hs.statement_append hcount hi k) h'
        | statements hs' _ => exact absurd rfl (ne_nil_of_consumes hs'.begins)
      · obtain ⟨c, rfl, -, hc⟩ := hs.spans trivial
        obtain ⟨d, rfl, -, hd⟩ := hss.spans trivial
        simp only [Phrase.debt, excess_append, excess_nil] at hcount hc hd
        have hcount' : excess (d ++ []) = 0 := by
          rw [excess_append, excess_nil]
          omega
        exact .statements (hs.append hj k) (ih hss hcount' fun _ => hi.of_append hj)

end Grammar

end Monkey
