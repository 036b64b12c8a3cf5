import Monkey.Parser.Basic
import Monkey.Proofs.Parser.Law

/-!
# The rules obey every law

By induction on the depth.  Two depths are enough that cover the tokens left: between two tokens
at most a few rules call one another.  This is the only place where the rules are taken apart for
a property that every step keeps.
-/

namespace Monkey.Parser

open Grammar

theorem lowest_le_precedence (kind : Kind) : Precedence.lowest ≤ precedence kind := by
  cases kind <;> simp [precedence, Precedence.lowest, Precedence.equality, Precedence.order,
    Precedence.sum, Precedence.product, Precedence.call, Precedence.index]

/-! ## Tokens left -/

namespace State

variable {s : State}

theorem rest_ne_nil (h : s.current.kind ≠ .eof) : s.rest ≠ [] := by
  intro hrest
  apply h
  simp [current, hrest, final]

theorem rest_eq_cons (h : s.current.kind ≠ .eof) : s.rest = s.current :: s.rest.tail := by
  cases hrest : s.rest with
  | nil => exact absurd hrest (rest_ne_nil h)
  | cons token rest => simp [current, hrest]

theorem current_mem_rest (h : s.current.kind ≠ .eof) : s.current ∈ s.rest := by
  rw [rest_eq_cons h]
  exact List.mem_cons_self

theorem rest_ne_nil_of_upcoming (h : s.upcoming.kind ≠ .eof) : s.rest ≠ [] := by
  intro hrest
  apply h
  simp [upcoming, hrest, final]

theorem length_advance (s : State) : s.advance.rest.length = s.rest.length - 1 :=
  List.length_tail

theorem length_note (s : State) (e : Event) : (s.note e).rest.length = s.rest.length := rfl

end State

open State (length_advance length_note)

/-- A token that binds is not of a kind that does not. -/
theorem ne_of_binds {kind other : Kind} (h : Precedence.lowest < precedence kind)
    (hother : precedence other = Precedence.lowest := by rfl) : kind ≠ other := by
  rintro rfl
  exact absurd hother (Nat.ne_of_gt h)

/-- Two depths cover the tokens left at two states, with so many to spare. -/
abbrev Covers (spare depth depth' : Nat) (s s' : State) : Prop :=
  8 * s.rest.length + spare ≤ depth ∧ 8 * s'.rest.length + spare ≤ depth'

/-- There are tokens left at two states. -/
abbrev Remain (s s' : State) : Prop := 0 < s.rest.length ∧ 0 < s'.rest.length

namespace Law

variable {L : Law} {w : L.World} {p : Standing} {s s' : State} {depth depth' : Nat}

theorem current_iff (h : L.stand w p s s') (q : Kind → Prop) :
    q s.current.kind ↔ q s'.current.kind := by
  rw [L.kind_eq (L.current h)]

theorem upcoming_iff (h : L.stand w p s s') (q : Kind → Prop) :
    q s.upcoming.kind ↔ q s'.upcoming.kind := by
  rw [L.kind_eq (L.upcoming h)]

/-- A token before the end of the input is one of the tokens left. -/
theorem remain_of_current (h : L.stand w p s s') (hne : s.current.kind ≠ .eof) : Remain s s' :=
  ⟨List.length_pos_of_ne_nil (State.rest_ne_nil hne),
    List.length_pos_of_ne_nil (State.rest_ne_nil ((current_iff h (· ≠ .eof)).mp hne))⟩

theorem remain_of_upcoming (h : L.stand w p s s') (hne : s.upcoming.kind ≠ .eof) : Remain s s' :=
  ⟨List.length_pos_of_ne_nil (State.rest_ne_nil_of_upcoming hne),
    List.length_pos_of_ne_nil
      (State.rest_ne_nil_of_upcoming ((upcoming_iff h (· ≠ .eof)).mp hne))⟩

theorem named (h : L.stand w p s s') (hk : s.current.kind = .ident) :
    Named L.token ⟨s.current.literal, some s.current⟩ ⟨s'.current.literal, some s'.current⟩ :=
  .ident hk (L.current h)

/-! ## Parameters -/

theorem moreParameters (h : L.stand w .spent s s') (hd : Covers 1 depth depth' s s') :
    L.Goes w True (List.Forall₂ (Named L.token)) (moreParameters depth) (moreParameters depth')
      s s' := by
  induction depth generalizing s s' depth' with
  | zero => omega
  | succ depth ih =>
    obtain ⟨depth', rfl⟩ : ∃ d, depth' = d + 1 := ⟨depth' - 1, by omega⟩
    rw [Parser.moreParameters, Parser.moreParameters]
    refine .upcoming_bind (.ite (upcoming_iff h (· = .comma)) (fun hk => ?_) fun _ => ?_)
    · have hremain := remain_of_upcoming h (by rw [hk]; decide)
      refine .advance_bind (.expect_bind (passes h (by rw [hk]; decide)) fun hident hname => ?_)
      refine .currentName_bind (.bind (ih hname ?_) fun _ _ _ _ ht _ _ hrest => ?_)
      · simp only [Covers, length_advance]
        omega
      · exact .pure ht (.cons (named hname hident) hrest)
    · exact .expect_bind h fun _ hend => .pure hend .nil

theorem parameters (h : L.stand w .spent s s') (hd : Covers 1 depth depth' s s') :
    L.Goes w True (List.Forall₂ (Named L.token)) (parameters depth) (parameters depth') s s' := by
  unfold Parser.parameters
  refine .upcoming_bind (.ite (upcoming_iff h (· = .rparen)) (fun hk => ?_) fun _ => ?_)
  · exact .advance_bind (.pure (passes h (by rw [hk]; decide)) .nil)
  · refine .expect_bind h fun hident hname => .currentName_bind ?_
    refine .bind (moreParameters hname ?_) fun _ _ _ _ ht _ _ hrest => ?_
    · simp only [Covers, length_advance]
      omega
    · exact .pure ht (.cons (named hname hident) hrest)

end Law

/-! ## Rules -/

/-- The rules obey a law at two depths that cover the tokens left. -/
structure RulesObey (L : Law) (depth depth' : Nat) : Prop where
  statements : ∀ {inBlock w s s'}, L.stand w .turn s s' → Covers 7 depth depth' s s' →
    L.Goes w False (List.Forall₂ (L.node .statement)) (statements inBlock depth)
      (statements inBlock depth') s s'
  statement : ∀ {w s s'}, L.stand w .fresh s s' → Covers 6 depth depth' s s' →
    L.Goes w True (L.node .statement) (statement depth) (statement depth') s s'
  block : ∀ {w s s'}, L.stand w .spent s s' → Covers 8 depth depth' s s' →
    L.Goes w True (L.node .block) (block depth) (block depth') s s'
  expression : ∀ {bound w s s'}, Precedence.lowest ≤ bound → L.stand w .fresh s s' →
    Covers 5 depth depth' s s' →
    L.Goes w True (L.node .expression) (expression depth bound) (expression depth' bound) s s'
  climb : ∀ {bound left left' w s s'}, Precedence.lowest ≤ bound →
    L.node .expression left left' → L.stand w .spent s s' → Covers 4 depth depth' s s' →
    L.Goes w True (L.node .expression) (climb depth bound left) (climb depth' bound left') s s'
  operand : ∀ {w s s'}, L.stand w .fresh s s' → Covers 4 depth depth' s s' →
    L.Goes w True (L.node .expression) (operand depth) (operand depth') s s'
  extend : ∀ {left left' w s s'}, Precedence.lowest < precedence s.current.kind →
    L.node .expression left left' → L.stand w .spent s s' → Covers 4 depth depth' s s' →
    L.Goes w True (L.node .expression) (extend depth left) (extend depth' left') s s'
  items : ∀ {closing w s s'}, closing ∈ expectable → L.stand w .spent s s' → Remain s s' →
    Covers 3 depth depth' s s' →
    L.Goes w True (List.Forall₂ (L.node .expression)) (items closing depth)
      (items closing depth') s s'
  moreItems : ∀ {closing w s s'}, closing ∈ expectable → L.stand w .spent s s' →
    Covers 3 depth depth' s s' →
    L.Goes w True (List.Forall₂ (L.node .expression)) (moreItems closing depth)
      (moreItems closing depth') s s'
  pairs : ∀ {w s s'}, L.stand w .spent s s' → Remain s s' → Covers 3 depth depth' s s' →
    L.Goes w True
      (List.Forall₂ fun p p' => L.node .expression p.1 p'.1 ∧ L.node .expression p.2 p'.2)
      (pairs depth) (pairs depth') s s'

namespace RulesObey

open Law

variable {L : Law} {w : L.World} {s s' : State} {depth depth' : Nat}

theorem statements_succ (ih : RulesObey L depth depth') {inBlock : Bool}
    (h : L.stand w .turn s s') (hd : Covers 7 (depth + 1) (depth' + 1) s s') :
    L.Goes w False (List.Forall₂ (L.node .statement)) (Parser.statements inBlock (depth + 1))
      (Parser.statements inBlock (depth' + 1)) s s' := by
  rw [Parser.statements, Parser.statements]
  have hends := current_iff h fun kind => kind = .eof ∨ (inBlock = true ∧ kind = .rbrace)
  refine .current_bind (.ite hends (fun hend => ?_) fun hgo => ?_)
  · exact .pure (L.ended h (hend.imp_right And.right)) .nil
  · have hne : s.current.kind ≠ .eof := fun heof => hgo (.inl heof)
    have hremain := remain_of_current h hne
    refine .attempt_bind h hne (fun v hv => ih.statement hv ?_) fun n? n?' t t' ht _ _ hn => ?_
    · simp only [Covers, length_note]
      omega
    · refine .bind (ih.statements ht (by omega)) fun ss ss' u u' hu _ _ hss => ?_
      exact .pure hu (List.rel_append hn hss)

/-- The expression of a statement, and the semicolon that may follow it. -/
theorem value (ih : RulesObey L depth depth') {f g : Node → Node} (h : L.stand w .fresh s s')
    (hd : Covers 5 depth depth' s s')
    (hfg : ∀ e e', L.node .expression e e' → L.node .statement (f e) (g e')) :
    L.Goes w True (L.node .statement)
      (do
        let e ← Parser.expression depth Precedence.lowest
        Parser.skip .semicolon
        pure (f e))
      (do
        let e ← Parser.expression depth' Precedence.lowest
        Parser.skip .semicolon
        pure (g e)) s s' :=
  .bind (ih.expression le_rfl h hd) fun e e' _ _ ht _ _ he =>
    .bind (.skip ht) fun _ _ _ _ hu _ _ _ => .pure hu (hfg e e' he)

theorem statement_succ (ih : RulesObey L depth depth') (h : L.stand w .fresh s s')
    (hd : Covers 6 (depth + 1) (depth' + 1) s s') :
    L.Goes w True (L.node .statement) (Parser.statement (depth + 1))
      (Parser.statement (depth' + 1)) s s' := by
  have htoken := L.current h
  rw [Parser.statement, Parser.statement]
  refine .current_bind ?_
  rw [← L.kind_eq htoken]
  split
  case h_1 hk =>
    have hlet := L.began .letStatement (.inr rfl) (L.read h (by rw [hk]; decide))
    refine .begin_bind (.expect_bind hlet fun hident hname => .currentName_bind ?_)
    refine .expect_bind hname fun _ hassign => .advance_bind (ih.value (L.advance hassign) ?_ ?_)
    · simp only [Covers, length_advance, length_note]
      omega
    · exact fun e e' he => L.built (.letBinding htoken (named hname hident) he)
  case h_2 hk =>
    have hreturn := L.began .returnStatement (.inr rfl) (L.read h (by rw [hk]; decide))
    refine .begin_bind (.advance_bind (ih.value (L.advance hreturn) ?_ ?_))
    · simp only [Covers, length_advance, length_note]
      omega
    · exact fun e e' he => L.built (.returning htoken he)
  case h_3 =>
    refine .begin_bind (ih.value (L.began .exprStatement (.inl rfl) h) ?_ ?_)
    · simp only [Covers, length_note]
      omega
    · exact fun e e' he => L.built (.exprStatement htoken he)

theorem block_succ (ih : RulesObey L depth depth') (h : L.stand w .spent s s')
    (hd : Covers 8 (depth + 1) (depth' + 1) s s') :
    L.Goes w True (L.node .block) (Parser.block (depth + 1)) (Parser.block (depth' + 1)) s s' := by
  rw [Parser.block, Parser.block]
  have hbody := L.body (L.began .block (.inr rfl) h)
  refine .begin_bind (.advance_bind (.bind ((ih.statements hbody ?_).mono False.elim) ?_))
  · simp only [Covers, length_advance, length_note]
    omega
  · exact fun ss ss' t t' ht _ _ hss => .pure ht (L.built (.block (L.current h) hss))

theorem expression_succ (ih : RulesObey L depth depth') {bound : Precedence}
    (hbound : Precedence.lowest ≤ bound) (h : L.stand w .fresh s s')
    (hd : Covers 5 (depth + 1) (depth' + 1) s s') :
    L.Goes w True (L.node .expression) (Parser.expression (depth + 1) bound)
      (Parser.expression (depth' + 1) bound) s s' := by
  rw [Parser.expression, Parser.expression]
  exact .bind (ih.operand h (by omega)) fun left left' t t' ht _ _ hleft =>
    ih.climb hbound hleft ht (by omega)

theorem climb_succ (ih : RulesObey L depth depth') {bound : Precedence} {left left' : Node}
    (hbound : Precedence.lowest ≤ bound) (hleft : L.node .expression left left')
    (h : L.stand w .spent s s') (hd : Covers 4 (depth + 1) (depth' + 1) s s') :
    L.Goes w True (L.node .expression) (Parser.climb (depth + 1) bound left)
      (Parser.climb (depth' + 1) bound left') s s' := by
  rw [Parser.climb, Parser.climb]
  refine .upcoming_bind (.ite (upcoming_iff h (bound < precedence ·)) (fun hlt => ?_) fun _ => ?_)
  · -- A token that binds is not the end of the input, so there are two tokens here at least.
    have hbinds : Precedence.lowest < precedence s.upcoming.kind := Nat.lt_of_le_of_lt hbound hlt
    have hnext := passes h (ne_of_binds hbinds)
    have hremain := remain_of_current hnext (ne_of_binds hbinds)
    have hlen := length_advance s
    have hlen' := length_advance s'
    refine .advance_bind (.bind (ih.extend hbinds hleft hnext (by omega)) ?_)
    exact fun extended extended' t t' ht _ _ hextended =>
      ih.climb hbound hextended ht (by omega)
  · exact .pure h hleft

theorem extend_succ (ih : RulesObey L depth depth') {left left' : Node}
    (hbinds : Precedence.lowest < precedence s.current.kind)
    (hleft : L.node .expression left left') (h : L.stand w .spent s s')
    (hd : Covers 4 (depth + 1) (depth' + 1) s s') :
    L.Goes w True (L.node .expression) (Parser.extend (depth + 1) left)
      (Parser.extend (depth' + 1) left') s s' := by
  have htoken := L.current h
  have hremain := remain_of_current h (ne_of_binds hbinds)
  rw [Parser.extend, Parser.extend]
  refine .current_bind ?_
  rw [← L.kind_eq htoken]
  split
  case h_1 =>
    have hcall := L.began .call (.inr rfl) h
    refine .begin_bind (.bind (ih.items (by decide) hcall hremain ?_) ?_)
    · simp only [Covers, length_note]
      omega
    · exact fun as as' t t' ht _ _ has => .pure ht (L.built (.call htoken hleft has))
  case h_2 =>
    have hindex := L.began .index (.inr rfl) h
    refine .begin_bind (.advance_bind (.bind (ih.expression le_rfl (L.advance hindex) ?_) ?_))
    · simp only [Covers, length_advance, length_note]
      omega
    · exact fun e e' t t' ht _ _ he =>
        .expect_bind ht fun _ hend => .pure hend (L.built (.index htoken hleft he))
  case h_3 hcall hindex =>
    have hbinary := L.began .binary (.inr rfl) h
    refine .begin_bind (.advance_bind (.bind
      (ih.expression (lowest_le_precedence _) (L.advance hbinary) ?_) ?_))
    · simp only [Covers, length_advance, length_note]
      omega
    · exact fun e e' t t' ht _ _ he =>
        .pure ht (L.built (.binary htoken (isBinary_of_binds hbinds hcall hindex) hleft he))

theorem items_succ (ih : RulesObey L depth depth') {closing : Kind}
    (hclosing : closing ∈ expectable) (h : L.stand w .spent s s') (hremain : Remain s s')
    (hd : Covers 3 (depth + 1) (depth' + 1) s s') :
    L.Goes w True (List.Forall₂ (L.node .expression)) (Parser.items closing (depth + 1))
      (Parser.items closing (depth' + 1)) s s' := by
  have hlen := length_advance s
  have hlen' := length_advance s'
  rw [Parser.items, Parser.items]
  refine .upcoming_bind (.ite (upcoming_iff h (· = closing)) (fun hk => ?_) fun _ => ?_)
  · exact .advance_bind (.pure (passes h (hk ▸ ne_int_of_mem_expectable hclosing)) .nil)
  · refine .advance_bind (.bind (ih.expression le_rfl (L.advance h) (by omega)) ?_)
    intro e e' t t' ht _ _ he
    exact .bind (ih.moreItems hclosing ht (by omega)) fun _ _ _ _ hu _ _ hes =>
      .pure hu (.cons he hes)

theorem moreItems_succ (ih : RulesObey L depth depth') {closing : Kind}
    (hclosing : closing ∈ expectable) (h : L.stand w .spent s s')
    (hd : Covers 3 (depth + 1) (depth' + 1) s s') :
    L.Goes w True (List.Forall₂ (L.node .expression)) (Parser.moreItems closing (depth + 1))
      (Parser.moreItems closing (depth' + 1)) s s' := by
  rw [Parser.moreItems, Parser.moreItems]
  refine .upcoming_bind (.ite (upcoming_iff h (· = .comma)) (fun hk => ?_) fun _ => ?_)
  · have hremain := remain_of_upcoming h (by rw [hk]; decide)
    have hcomma := passes h (by rw [hk]; decide)
    have hlen := length_advance s
    have hlen' := length_advance s'
    have hlen₂ := length_advance s.advance
    have hlen₂' := length_advance s'.advance
    refine .advance_bind (.advance_bind ?_)
    refine .bind (ih.expression le_rfl (L.advance hcomma) (by omega)) fun e e' t t' ht _ _ he => ?_
    exact .bind (ih.moreItems hclosing ht (by omega)) fun _ _ _ _ hu _ _ hes =>
      .pure hu (.cons he hes)
  · exact .expect_bind h (fun _ hend => .pure hend .nil) hclosing

theorem pairs_succ (ih : RulesObey L depth depth') (h : L.stand w .spent s s')
    (hremain : Remain s s') (hd : Covers 3 (depth + 1) (depth' + 1) s s') :
    L.Goes w True
      (List.Forall₂ fun p p' => L.node .expression p.1 p'.1 ∧ L.node .expression p.2 p'.2)
      (Parser.pairs (depth + 1)) (Parser.pairs (depth' + 1)) s s' := by
  have hlen := length_advance s
  have hlen' := length_advance s'
  rw [Parser.pairs, Parser.pairs]
  refine .upcoming_bind (.ite (upcoming_iff h (· = .rbrace)) (fun hk => ?_) fun _ => ?_)
  · exact .advance_bind (.pure (passes h (by rw [hk]; decide)) .nil)
  · refine .advance_bind (.bind (ih.expression le_rfl (L.advance h) (by omega)) ?_)
    intro key key' t t' ht _ _ hkey
    refine .expect_bind ht fun _ hcolon => .advance_bind (.bind
      (ih.expression le_rfl (L.advance hcolon) ?_) fun value value' u u' hu hule hule' hvalue => ?_)
    · simp only [Covers, length_advance]
      omega
    simp only [length_advance] at hule hule'
    refine .upcoming_bind (.ite (upcoming_iff hu (· ≠ .rbrace)) (fun hr => ?_) fun hr => ?_)
    -- Whether a comma or the closing brace is next, the remaining pairs start at a token.
    · refine .expect_bind hu fun hk hcomma => ?_
      have hremain := remain_of_current hcomma (by rw [State.advance_current, hk]; decide)
      have hlen₂ := length_advance u
      have hlen₂' := length_advance u'
      exact .bind (ih.pairs hcomma hremain (by omega)) fun _ _ _ _ hv _ _ hps =>
        .pure hv (.cons ⟨hkey, hvalue⟩ hps)
    · have hremain := remain_of_upcoming hu (by rw [not_not.mp hr]; decide)
      exact .bind (ih.pairs hu hremain (by omega)) fun _ _ _ _ hv _ _ hps =>
        .pure hv (.cons ⟨hkey, hvalue⟩ hps)

/-- A prefix operator and its operand. -/
theorem prefixed (ih : RulesObey L depth depth') (h : L.stand w .fresh s s')
    (hoperator : IsPrefix s.current.kind) (hd : Covers 4 (depth + 1) (depth' + 1) s s') :
    L.Goes w True (L.node .expression)
      (do
        let token ← Parser.begin .prefixed
        Parser.advance
        let right ← Parser.expression depth Precedence.prefixed
        pure (.prefixed token.literal right (some token)))
      (do
        let token ← Parser.begin .prefixed
        Parser.advance
        let right ← Parser.expression depth' Precedence.prefixed
        pure (.prefixed token.literal right (some token))) s s' := by
  have hne : s.current.kind ≠ .eof ∧ s.current.kind ≠ .int := by
    rcases hoperator with hk | hk <;> rw [hk] <;> decide
  have hremain := remain_of_current h hne.1
  have hread := L.began .prefixed (.inr rfl) (L.read h hne.2)
  refine .begin_bind (.advance_bind (.bind (ih.expression (by decide) (L.advance hread) ?_) ?_))
  · simp only [Covers, length_advance, length_note]
    omega
  · exact fun e e' t t' ht _ _ he => .pure ht (L.built (.prefixed (L.current h) hoperator he))

theorem operand_succ (ih : RulesObey L depth depth') (h : L.stand w .fresh s s')
    (hd : Covers 4 (depth + 1) (depth' + 1) s s') :
    L.Goes w True (L.node .expression) (Parser.operand (depth + 1))
      (Parser.operand (depth' + 1)) s s' := by
  have htoken := L.current h
  rw [Parser.operand, Parser.operand]
  refine .current_bind ?_
  rw [← L.kind_eq htoken]
  split
  case h_1 hk =>
    exact .pure (L.read h (by rw [hk]; decide)) (L.built (.identifier (named h hk)))
  case h_2 hk => exact .integerLiteral h hk
  case h_3 hk => exact .pure (L.read h (by rw [hk]; decide)) (L.built (.string htoken hk))
  case h_4 hk => exact .pure (L.read h (by rw [hk]; decide)) (L.built (.boolean _ htoken))
  case h_5 hk => exact .pure (L.read h (by rw [hk]; decide)) (L.built (.boolean _ htoken))
  case h_6 hk => exact ih.prefixed h (.inl hk) hd
  case h_7 hk => exact ih.prefixed h (.inr hk) hd
  case h_8 hk =>
    have hremain := remain_of_current h (by rw [hk]; decide)
    have hopen := L.read h (by rw [hk]; decide)
    refine .advance_bind (.bind (ih.expression le_rfl (L.advance hopen) ?_) ?_)
    · simp only [Covers, length_advance]
      omega
    · exact fun e e' t t' ht _ _ he => .expect_bind ht fun _ hend => .pure hend he
  case h_9 hk =>
    have hremain := remain_of_current h (by rw [hk]; decide)
    have hif := L.began .conditional (.inr rfl) (L.read h (by rw [hk]; decide))
    refine .begin_bind (.expect_bind hif fun _ hopen => .advance_bind ?_)
    refine .bind (ih.expression le_rfl (L.advance hopen) ?_) fun c c' t t' ht hle hle' hc => ?_
    · simp only [Covers, length_advance, length_note]
      omega
    simp only [length_advance, length_note] at hle hle'
    refine .expect_bind ht fun _ hclose => .expect_bind hclose fun _ hbrace => ?_
    refine .bind (ih.block hbrace ?_) fun d d' u u' hu hule hule' hblock => .upcoming_bind ?_
    · simp only [Covers, length_advance]
      omega
    simp only [length_advance] at hule hule'
    refine .ite (upcoming_iff hu (· = .elseKeyword)) (fun hk => .advance_bind ?_) fun _ => ?_
    · refine .expect_bind (passes hu (by rw [hk]; decide)) fun _ hbrace => ?_
      refine .bind (ih.block hbrace ?_) fun a a' v v' hv _ _ ha => ?_
      · simp only [Covers, length_advance]
        omega
      · exact .pure hv (L.built (.conditional htoken hc hblock (.some ha)))
    · exact .pure hu (L.built (.conditional htoken hc hblock .none))
  case h_10 hk =>
    have hremain := remain_of_current h (by rw [hk]; decide)
    have hfunction := L.began .function (.inr rfl) (L.read h (by rw [hk]; decide))
    refine .begin_bind (.expect_bind hfunction fun _ hopen => ?_)
    refine .bind (Law.parameters hopen ?_) fun xs xs' t t' ht hle hle' hxs => ?_
    · simp only [Covers, length_advance, length_note]
      omega
    simp only [length_advance, length_note] at hle hle'
    refine .expect_bind ht fun _ hbrace => .bind (ih.block hbrace ?_) fun b b' _ _ hu _ _ hb => ?_
    · simp only [Covers, length_advance]
      omega
    · exact .pure hu (L.built (.function htoken hxs hb))
  case h_11 hk =>
    have hremain := remain_of_current h (by rw [hk]; decide)
    have hopen := L.read h (by rw [hk]; decide)
    exact .bind (ih.items (by decide) hopen hremain (by omega)) fun es es' t t' ht _ _ hes =>
      .pure ht (L.built (.array htoken hes))
  case h_12 hk =>
    have hremain := remain_of_current h (by rw [hk]; decide)
    have hopen := L.began .hash (.inr rfl) (L.read h (by rw [hk]; decide))
    refine .begin_bind (.bind (ih.pairs hopen hremain ?_) fun ps ps' t t' ht _ _ hps => ?_)
    · simp only [Covers, length_note]
      omega
    · exact .pure ht (L.built (.hash htoken hps))
  case h_13 => exact Ends.dropped trivial (L.noExpression h ‹s.current.kind = .int → False›)

end RulesObey

/-- The rules obey every law. -/
theorem rulesObey (L : Law) (depth depth' : Nat) : RulesObey L depth depth' := by
  induction depth generalizing depth' with
  | zero => constructor <;> intros <;> omega
  | succ depth ih =>
    cases depth' with
    | zero => constructor <;> intros <;> omega
    | succ depth' =>
      have ih := ih depth'
      exact
        { statements := ih.statements_succ
          statement := ih.statement_succ
          block := ih.block_succ
          expression := ih.expression_succ
          climb := ih.climb_succ
          operand := ih.operand_succ
          extend := ih.extend_succ
          items := ih.items_succ
          moreItems := ih.moreItems_succ
          pairs := ih.pairs_succ }

/-! ## Whole parses -/

theorem covers_depthBound {stream : TokenStream} {depth : Nat}
    (h : depthBound stream.tokens.length ≤ depth) :
    8 * (State.ofStream stream).rest.length + 7 ≤ depth := by
  simp only [depthBound] at h
  simp only [State.ofStream]
  omega

namespace Law

variable (L : Law) {w : L.World}

/-- Statements end alike at depths that cover the tokens left. -/
theorem statements_ends (inBlock : Bool) {depth depth' : Nat} {s s' : State}
    (h : L.stand w .turn s s') (hd : Covers 7 depth depth' s s') :
    (∃ ss ss' t t', statements inBlock depth s = .ok ss t ∧
        statements inBlock depth' s' = .ok ss' t' ∧ L.stand w .spent t t' ∧
        List.Forall₂ (L.node .statement) ss ss') ∨
      ∃ refusal t t', statements inBlock depth s = .error (.unreadable refusal) t ∧
        statements inBlock depth' s' = .error (.unreadable refusal) t' ∧ L.refused refusal := by
  have hgoes : L.Goes w False (List.Forall₂ (L.node .statement)) (statements inBlock depth)
      (statements inBlock depth') s s' := (rulesObey L depth depth').statements h hd
  unfold Goes at hgoes
  generalize statements inBlock depth s = r, statements inBlock depth' s' = r' at hgoes
  cases hgoes with
  | ok ht hss => exact .inl ⟨_, _, _, _, rfl, rfl, ht, hss⟩
  | dropped hfalse => exact hfalse.elim
  | refused t t' hrefused => exact .inr ⟨_, t, t', rfl, rfl, hrefused⟩

/-- Two parses end alike. -/
theorem run_ends {stream stream' : TokenStream}
    (h : L.stand w .turn (.ofStream stream) (.ofStream stream')) :
    (∃ ss ss' t t', run stream = .ok ⟨ss, t.log.reverse⟩ ∧
        run stream' = .ok ⟨ss', t'.log.reverse⟩ ∧ L.stand w .spent t t' ∧
        List.Forall₂ (L.node .statement) ss ss') ∨
      ∃ refusal, run stream = .error refusal ∧ run stream' = .error refusal ∧
        L.refused refusal := by
  have hcovers : Covers 7 (depthBound stream.tokens.length) (depthBound stream'.tokens.length)
      (.ofStream stream) (.ofStream stream') :=
    ⟨covers_depthBound le_rfl, covers_depthBound le_rfl⟩
  unfold run
  rcases L.statements_ends false h hcovers with
    ⟨ss, ss', t, t', hrun, hrun', ht, hss⟩ | ⟨refusal, t, t', hrun, hrun', hrefused⟩
  · exact .inl ⟨ss, ss', t, t', by rw [hrun], by rw [hrun'], ht, hss⟩
  · exact .inr ⟨refusal, by rw [hrun], by rw [hrun'], hrefused⟩

end Law

end Monkey.Parser
