import Monkey.Proofs.Parser.Accounts
import Monkey.Proofs.Parser.Cursor
import Monkey.Proofs.Token.Scan

/-!
# Soundness of the parser

A rule that gives a tree, and gives up no statement on its way, has read a derivation of that
tree: every word from the first to the last one of it, in order.  A parse without mistakes
gives up no statement, so the tokens of its source derive the program.
-/

namespace Monkey.Parser

open Grammar

/-- If the rule gives a result from `s` and no statement was given up meanwhile, the result
    and the state reached satisfy a condition. -/
def Reads {α : Type} (x : Action α) (s : State) (post : α → State → Prop) : Prop :=
  EofLast s.rest → ∀ a t, x s = .ok a t → t.drops = s.drops → post a t

theorem State.Onward.drops_le {s t : State} (h : s.Onward t) : s.drops ≤ t.drops :=
  h.log_suffix.sublist.countP_le

namespace Reads

variable {α β : Type} {s : State} {post : β → State → Prop}

protected theorem pure {b : β} (h : post b s) : Reads (pure b) s post := by
  intro _ a t hrun _
  cases hrun
  exact h

protected theorem throw (e : Failure) : Reads (throw e) s post := by
  intro _ a t hrun
  cases hrun

theorem mono {x : Action β} {post' : β → State → Prop} (hx : Reads x s post)
    (h : ∀ b t, post b t → post' b t) : Reads x s post' := by
  intro hlast b t hrun hdrops
  exact h b t (hx hlast b t hrun hdrops)

theorem bind {x : Action α} {f : α → Action β} {mid : α → State → Prop} [Forward x]
    [∀ a, Forward (f a)] (hx : Reads x s mid) (hf : ∀ a t, mid a t → Reads (f a) t post) :
    Reads (x >>= f) s post := by
  intro hlast b u hrun hdrops
  rw [bind_run] at hrun
  split at hrun
  · next a t hxs =>
    have hst := (Forward.onward hxs).drops_le
    have htu := (Forward.onward hrun).drops_le
    have hmid := hx hlast a t hxs (by omega)
    exact hf a t hmid (hlast.suffix ((Forward.onward hxs).rest_suffix)) b u hrun (by omega)
  · cases hrun

theorem current_bind {f : Token → Action β} (h : Reads (f s.current) s post) :
    Reads (current >>= f) s post := h

theorem currentName_bind {f : Name → Action β}
    (h : Reads (f ⟨s.current.literal, some s.current⟩) s post) :
    Reads (currentName >>= f) s post := h

theorem upcoming_bind {f : Token → Action β} (h : Reads (f s.upcoming) s post) :
    Reads (upcoming >>= f) s post := h

theorem begin_bind {rule : Rule} {f : Token → Action β}
    (h : Reads (f s.current) (s.note (.began rule s.current)) post) :
    Reads (begin rule >>= f) s post := h

theorem advance_bind {f : Unit → Action β} (h : Reads (f ()) s.advance post) :
    Reads (advance >>= f) s post := fun hlast =>
  h (hlast.suffix (List.tail_suffix _))

theorem expect_bind {kind : Kind} {f : Unit → Action β}
    (h : s.upcoming.kind = kind → Reads (f ()) s.advance post) :
    Reads (expect kind >>= f) s post := by
  intro hlast b t hrun
  rw [bind_run, expect_run] at hrun
  by_cases hk : s.upcoming.kind = kind
  · rw [if_pos hk] at hrun
    exact h hk (hlast.suffix (List.tail_suffix _)) b t hrun
  · rw [if_neg hk] at hrun
    cases hrun

theorem and {x : Action β} {post' : β → State → Prop} (hx : Reads x s post)
    (hx' : Reads x s post') : Reads x s fun b t => post b t ∧ post' b t := by
  intro hlast b t hrun hdrops
  exact ⟨hx hlast b t hrun hdrops, hx' hlast b t hrun hdrops⟩

end Reads

/-- An attempt that gives no statement up reads one. -/
theorem attempt_reads {depth : Nat} {s : State} {post : Node → State → Prop}
    (h : Reads (statement depth) (s.note (.attempted s.passed)) post) :
    Reads (attempt (statement depth)) s fun n? t => ∃ n, n? = some n ∧ post n t := by
  intro hlast n? t hrun hdrops
  unfold attempt at hrun
  split at hrun
  · next n t' hstatement =>
    cases hrun
    exact ⟨n, rfl, h hlast n t hstatement hdrops⟩
  · next t' hstatement =>
    cases hrun
    have hle := (Forward.onward_of_error hstatement).drops_le
    rw [State.drops_note_dropped] at hdrops
    rw [State.drops_note_attempted] at hle
    omega
  · cases hrun

/-! ## Rules read derivations -/

/-- An expression that may stand before an operator, call or index of a kind. -/
def Takes (e : Node) (i : List Word) (kind : Kind) (r : List Word) : Prop :=
  Derives (.expression (precedence kind) e) i r ∧
    (Precedence.prefixed < precedence kind → Derives (.primary e) i r)

theorem Takes.of_primary {e : Node} {i r : List Word} (h : Derives (.primary e) i r)
    (kind : Kind) : Takes e i kind r :=
  ⟨.operand (.unprefixed h), fun _ => h⟩

/-- What the rules read at a given depth. -/
structure RulesRead (depth : Nat) : Prop where
  statements : ∀ inBlock s, Reads (statements inBlock depth) s fun ss t =>
    Derives (.statements (Node.stripAll ss)) s.words t.words
  statement : ∀ s, Reads (statement depth) s fun n t =>
    Derives (.statement n.strip) s.words t.ahead
  block : ∀ s, s.current.kind = .lbrace → Reads (block depth) s fun b t =>
    Derives (.block b.strip) s.words t.ahead
  expression : ∀ bound s, Precedence.lowest ≤ bound → Reads (expression depth bound) s
    fun e t => Derives (.expression (bound + 1) e.strip) s.words t.ahead ∧
      precedence t.upcoming.kind ≤ bound
  climb : ∀ bound left i s, Derives (.expression (bound + 1) left.strip) i s.ahead →
    Takes left.strip i s.upcoming.kind s.ahead → Precedence.lowest ≤ bound →
    Reads (climb depth bound left) s fun e t =>
      Derives (.expression (bound + 1) e.strip) i t.ahead ∧ precedence t.upcoming.kind ≤ bound
  operand : ∀ s, Reads (operand depth) s fun e t =>
    Derives (.unary e.strip) s.words t.ahead ∧ Takes e.strip s.words t.upcoming.kind t.ahead
  extend : ∀ left i s, Precedence.lowest < precedence s.current.kind →
    Takes left.strip i s.current.kind s.words → Reads (extend depth left) s fun e t =>
      Derives (.expression (precedence s.current.kind) e.strip) i t.ahead ∧
        Takes e.strip i t.upcoming.kind t.ahead
  items : ∀ closing s, closing ≠ .eof → Reads (items closing depth) s fun es t =>
    Derives (.items closing (Node.stripAll es)) s.ahead t.ahead
  moreItems : ∀ closing s, closing ≠ .eof → Reads (moreItems closing depth) s fun es t =>
    Derives (.moreItems closing (Node.stripAll es)) s.ahead t.ahead
  pairs : ∀ s, Reads (pairs depth) s fun ps t =>
    Derives (.pairs (Node.stripPairs ps)) s.ahead t.ahead

theorem moreParameters_reads (depth : Nat) (s : State) :
    Reads (moreParameters depth) s fun names t =>
      Derives (.moreParameters (names.map Name.bare)) s.ahead t.ahead := by
  induction depth generalizing s with
  | zero => exact Reads.throw _
  | succ depth ih =>
    rw [moreParameters]
    refine Reads.upcoming_bind ?_
    by_cases hk : s.upcoming.kind = .comma
    · rw [if_pos hk]
      refine Reads.advance_bind (Reads.expect_bind fun hx => Reads.currentName_bind ?_)
      refine Reads.bind (ih _) fun names t ht => Reads.pure ?_
      rw [State.ahead_of_upcoming hk (by decide), State.ahead_of_upcoming hx (by decide)]
      exact .moreParameters ht
    · rw [if_neg hk]
      refine Reads.expect_bind fun hx => Reads.pure ?_
      rw [State.ahead_of_upcoming hx (by decide)]
      exact .noMoreParameters

theorem parameters_reads (depth : Nat) (s : State) :
    Reads (parameters depth) s fun names t =>
      Derives (.parameters (names.map Name.bare)) s.ahead t.ahead := by
  unfold parameters
  refine Reads.upcoming_bind ?_
  by_cases hk : s.upcoming.kind = .rparen
  · rw [if_pos hk]
    refine Reads.advance_bind (Reads.pure ?_)
    rw [State.ahead_of_upcoming hk (by decide)]
    exact .noParameters
  · rw [if_neg hk]
    refine Reads.expect_bind fun hx => Reads.currentName_bind ?_
    refine Reads.bind (moreParameters_reads depth _) fun names t ht => Reads.pure ?_
    rw [State.ahead_of_upcoming hx (by decide)]
    exact .parameters ht

namespace RulesRead

variable {depth : Nat}

theorem expression_succ (ih : RulesRead depth) (bound : Precedence) (s : State)
    (hb : Precedence.lowest ≤ bound) :
    Reads (Parser.expression (depth + 1) bound) s fun e t =>
      Derives (.expression (bound + 1) e.strip) s.words t.ahead ∧
        precedence t.upcoming.kind ≤ bound := by
  rw [Parser.expression]
  refine Reads.bind (ih.operand s) fun left t ht => ?_
  exact ih.climb bound left _ t (.operand ht.1) ht.2 hb

theorem climb_succ (ih : RulesRead depth) (bound : Precedence) (left : Node) (i : List Word)
    (s : State) (hleft : Derives (.expression (bound + 1) left.strip) i s.ahead)
    (htakes : Takes left.strip i s.upcoming.kind s.ahead) (hb : Precedence.lowest ≤ bound) :
    Reads (Parser.climb (depth + 1) bound left) s fun e t =>
      Derives (.expression (bound + 1) e.strip) i t.ahead ∧
        precedence t.upcoming.kind ≤ bound := by
  rw [Parser.climb]
  refine Reads.upcoming_bind ?_
  by_cases hlt : bound < precedence s.upcoming.kind
  · rw [if_pos hlt]
    refine Reads.advance_bind ?_
    refine Reads.bind (ih.extend left i s.advance (Nat.lt_of_le_of_lt hb hlt) htakes)
      fun extended t ht => ?_
    exact ih.climb bound extended i t (ht.1.expression_anti hlt) ht.2 hb
  · rw [if_neg hlt]
    exact Reads.pure ⟨hleft, Nat.not_lt.mp hlt⟩

theorem extend_succ (ih : RulesRead depth) (left : Node) (i : List Word) (s : State)
    (hop : Precedence.lowest < precedence s.current.kind)
    (htakes : Takes left.strip i s.current.kind s.words) :
    Reads (Parser.extend (depth + 1) left) s fun e t =>
      Derives (.expression (precedence s.current.kind) e.strip) i t.ahead ∧
        Takes e.strip i t.upcoming.kind t.ahead := by
  rw [Parser.extend]
  refine Reads.current_bind ?_
  by_cases hcall : s.current.kind = .lparen
  · rw [hcall] at htakes ⊢
    rw [State.words_of_current hcall (by decide)] at htakes
    refine Reads.begin_bind (Reads.bind (ih.items .rparen _ (by decide)) fun as t ht => ?_)
    have hprimary : Derives (.primary (.call left.strip (Node.stripAll as) none)) i t.ahead :=
      .call (htakes.2 (by decide)) ht
    exact Reads.pure ⟨.operand (.unprefixed hprimary), .of_primary hprimary _⟩
  by_cases hindex : s.current.kind = .lbracket
  · rw [hindex] at htakes ⊢
    rw [State.words_of_current hindex (by decide)] at htakes
    refine Reads.begin_bind (Reads.advance_bind ?_)
    refine Reads.bind (ih.expression _ _ le_rfl) fun e t ht => Reads.expect_bind fun hclose => ?_
    have hsub := ht.1.expression_anti (Nat.le_succ Precedence.lowest)
    rw [State.ahead_of_upcoming hclose (by decide)] at hsub
    have hprimary : Derives (.primary (.index left.strip e.strip none)) i t.advance.ahead :=
      .index (htakes.2 (by decide)) hsub
    exact Reads.pure ⟨.operand (.unprefixed hprimary), .of_primary hprimary _⟩
  · have hbinary := isBinary_of_binds hop hcall hindex
    have heof : s.current.kind ≠ .eof := by
      intro heof
      rw [heof] at hop
      exact absurd hop (Nat.lt_irrefl _)
    rw [State.words_of_current rfl heof] at htakes
    split
    · contradiction
    · contradiction
    · refine Reads.begin_bind (Reads.advance_bind ?_)
      refine Reads.bind (ih.expression _ _ (lowest_le_precedence _)) fun e t ht => Reads.pure ?_
      have hderives : Derives (.expression (precedence s.current.kind)
          (.binary left.strip s.current.literal e.strip none)) i t.ahead :=
        .binary hbinary le_rfl htakes.1 ht.1
      refine ⟨hderives, hderives.expression_anti ht.2, fun hlt => ?_⟩
      exact absurd (Nat.lt_of_lt_of_le hlt ht.2) (Nat.not_lt.mpr (Nat.le_of_lt hbinary.2))

theorem items_succ (ih : RulesRead depth) (closing : Kind) (s : State)
    (hclosing : closing ≠ .eof) :
    Reads (Parser.items closing (depth + 1)) s fun es t =>
      Derives (.items closing (Node.stripAll es)) s.ahead t.ahead := by
  rw [Parser.items]
  refine Reads.upcoming_bind ?_
  by_cases hk : s.upcoming.kind = closing
  · rw [if_pos hk]
    refine Reads.advance_bind (Reads.pure ?_)
    rw [State.ahead_of_upcoming hk hclosing]
    exact .noItems
  · rw [if_neg hk]
    refine Reads.advance_bind (Reads.bind (ih.expression _ _ le_rfl) fun e t ht => ?_)
    refine Reads.bind (ih.moreItems closing t hclosing) fun es u hu => Reads.pure ?_
    exact .items (ht.1.expression_anti (Nat.le_succ _)) hu

theorem moreItems_succ (ih : RulesRead depth) (closing : Kind) (s : State)
    (hclosing : closing ≠ .eof) :
    Reads (Parser.moreItems closing (depth + 1)) s fun es t =>
      Derives (.moreItems closing (Node.stripAll es)) s.ahead t.ahead := by
  rw [Parser.moreItems]
  refine Reads.upcoming_bind ?_
  by_cases hk : s.upcoming.kind = .comma
  · rw [if_pos hk, State.ahead_of_upcoming hk (by decide)]
    refine Reads.advance_bind (Reads.advance_bind ?_)
    refine Reads.bind (ih.expression _ _ le_rfl) fun e t ht => ?_
    refine Reads.bind (ih.moreItems closing t hclosing) fun es u hu => Reads.pure ?_
    exact .moreItems (ht.1.expression_anti (Nat.le_succ _)) hu
  · rw [if_neg hk]
    refine Reads.expect_bind fun hclose => Reads.pure ?_
    rw [State.ahead_of_upcoming hclose hclosing]
    exact .noMoreItems

theorem pairs_closed {s t : State} {ps : List (Node × Node)} (h : s.upcoming.kind = .rbrace)
    (hrun : Parser.pairs depth s = .ok ps t) : ps = [] ∧ t = s.advance := by
  cases depth with
  | zero => cases hrun
  | succ depth =>
    rw [Parser.pairs, upcoming_bind_run, if_pos h] at hrun
    cases hrun
    exact ⟨rfl, rfl⟩

theorem pairs_succ (ih : RulesRead depth) (s : State) :
    Reads (Parser.pairs (depth + 1)) s fun ps t =>
      Derives (.pairs (Node.stripPairs ps)) s.ahead t.ahead := by
  rw [Parser.pairs]
  refine Reads.upcoming_bind ?_
  by_cases hk : s.upcoming.kind = .rbrace
  · rw [if_pos hk, State.ahead_of_upcoming hk (by decide)]
    exact Reads.advance_bind (Reads.pure .noPairs)
  · rw [if_neg hk]
    refine Reads.advance_bind (Reads.bind (ih.expression _ _ le_rfl) fun key t ht => ?_)
    refine Reads.expect_bind fun hcolon => Reads.advance_bind ?_
    refine Reads.bind (ih.expression _ _ le_rfl) fun value u hu => Reads.upcoming_bind ?_
    have hkey := ht.1.expression_anti (Nat.le_succ Precedence.lowest)
    have hvalue := hu.1.expression_anti (Nat.le_succ Precedence.lowest)
    rw [State.ahead_of_upcoming hcolon (by decide)] at hkey
    by_cases hr : u.upcoming.kind = .rbrace
    · rw [if_neg (by simpa using hr)]
      rw [State.ahead_of_upcoming hr (by decide)] at hvalue
      have hclosed : Reads (Parser.pairs depth) u fun ps v => ps = [] ∧ v = u.advance :=
        fun _ _ _ hrun _ => pairs_closed hr hrun
      refine Reads.bind hclosed fun ps v hv => Reads.pure ?_
      rw [hv.1, hv.2]
      exact .lastPair hkey hvalue
    · rw [if_pos (by simpa using hr)]
      apply Reads.expect_bind
      intro hcomma
      rw [State.ahead_of_upcoming hcomma (by decide)] at hvalue
      exact Reads.bind (ih.pairs _) fun ps v hv => Reads.pure (.pairs hkey hvalue hv)

/-- The semicolon that may end a statement, once its expression has ended. -/
theorem skip_reads {α : Type} {e : Node} {i : List Word} {a : α} {s : State}
    {post : α → State → Prop}
    (h : Derives (.expression (Precedence.lowest + 1) e) i s.ahead ∧
      precedence s.upcoming.kind ≤ Precedence.lowest)
    (hpost : ∀ t, Terminates s.ahead t.ahead → post a t) :
    Reads (skip .semicolon >>= fun _ => pure a) s post := by
  intro _ b t hrun _
  rw [bind_run, skip_run] at hrun
  by_cases hk : s.upcoming.kind = .semicolon
  · rw [if_pos hk] at hrun
    cases hrun
    refine hpost _ ?_
    rw [State.ahead_of_upcoming hk (by decide)]
    exact .semicolon
  · rw [if_neg hk] at hrun
    cases hrun
    exact hpost _ (.absent (State.next_ahead
      ⟨hk, Nat.le_antisymm h.2 (lowest_le_precedence _)⟩))

theorem statement_succ (ih : RulesRead depth) (s : State) :
    Reads (Parser.statement (depth + 1)) s fun n t =>
      Derives (.statement n.strip) s.words t.ahead := by
  rw [Parser.statement]
  refine Reads.current_bind ?_
  split
  · next hlet =>
    refine Reads.begin_bind (Reads.expect_bind fun hx => Reads.currentName_bind ?_)
    refine Reads.expect_bind fun hassign => Reads.advance_bind ?_
    refine Reads.bind (ih.expression _ _ le_rfl) fun value t ht => skip_reads ht fun u hu => ?_
    rw [State.words_of_current hlet (by decide)]
    have hx : s.upcoming.kind = .ident := hx
    have hassign : s.advance.upcoming.kind = .assign := hassign
    rw [State.ahead_of_upcoming hx (by decide), State.ahead_of_upcoming hassign (by decide)]
    exact .letBinding (ht.1.expression_anti (Nat.le_succ _)) hu
  · next hreturn =>
    refine Reads.begin_bind (Reads.advance_bind ?_)
    refine Reads.bind (ih.expression _ _ le_rfl) fun value t ht => skip_reads ht fun u hu => ?_
    rw [State.words_of_current hreturn (by decide)]
    exact .returning (ht.1.expression_anti (Nat.le_succ _)) hu
  · refine Reads.begin_bind ?_
    refine Reads.bind (ih.expression _ _ le_rfl) fun value t ht => skip_reads ht fun u hu => ?_
    exact .exprStatement (ht.1.expression_anti (Nat.le_succ _)) hu

theorem block_succ (ih : RulesRead depth) (s : State) (hbrace : s.current.kind = .lbrace) :
    Reads (Parser.block (depth + 1)) s fun b t =>
      Derives (.block b.strip) s.words t.ahead := by
  rw [Parser.block]
  refine Reads.begin_bind (Reads.advance_bind ?_)
  refine Reads.bind (Reads.and (ih.statements true _) fun _ _ _ h _ => statements_ends h)
    fun body t ht => ?_
  intro hlast b u hrun _
  cases hrun
  rw [State.words_of_current hbrace (by decide)]
  rcases ht with ⟨hderives, heof | ⟨-, hclose⟩⟩
  · rw [State.words_eq_nil heof] at hderives
    rw [State.ahead_eq_nil_of_eof hlast heof]
    exact .unclosedBlock hderives
  · rw [State.words_of_current hclose (by decide)] at hderives
    exact .block hderives

theorem integerLiteral_reads (s : State) (hint : s.current.kind = .int) :
    Reads (integerLiteral s.current) s fun e t =>
      Derives (.primary e.strip) s.words t.ahead := by
  unfold integerLiteral
  split
  · exact Reads.throw _
  · next n hread =>
    split
    · intro _ e t hrun
      cases hrun
    · next hle =>
      refine Reads.pure ?_
      rw [State.words_of_current hint (by decide)]
      exact .integer hread (Int.not_lt.mp hle)

/-- A tree that is a primary may stand before anything. -/
theorem of_primary {x : Action Node} {s : State}
    (h : Reads x s fun e t => Derives (.primary e.strip) s.words t.ahead) :
    Reads x s fun e t => Derives (.unary e.strip) s.words t.ahead ∧
      Takes e.strip s.words t.upcoming.kind t.ahead :=
  h.mono fun _ _ ht => ⟨.unprefixed ht, .of_primary ht _⟩

theorem prefixed_reads (ih : RulesRead depth) (s : State) (h : IsPrefix s.current.kind) :
    Reads (Parser.begin .prefixed >>= fun token => Parser.advance >>= fun _ =>
        Parser.expression depth Precedence.prefixed >>= fun right =>
          (pure (.prefixed token.literal right (some token)) : Action Node)) s fun e t =>
      Derives (.unary e.strip) s.words t.ahead ∧
        Takes e.strip s.words t.upcoming.kind t.ahead := by
  refine Reads.begin_bind (Reads.advance_bind ?_)
  refine Reads.bind (ih.expression _ _ (by decide)) fun right t ht => Reads.pure ?_
  have hright : Derives (.unary right.strip) s.ahead t.ahead :=
    ht.1.unary_of_prefixed_le (Nat.le_succ _)
  have hderives : Derives (.unary (.prefixed s.current.literal right.strip none)) s.words
      t.ahead := by
    rw [State.words_of_current rfl h.ne_eof]
    exact .prefixed h hright
  exact ⟨hderives, .operand hderives, fun hlt => absurd hlt (Nat.not_lt.mpr ht.2)⟩

theorem grouped_reads (ih : RulesRead depth) (s : State) (h : s.current.kind = .lparen) :
    Reads (Parser.advance >>= fun _ => Parser.expression depth Precedence.lowest >>= fun inner =>
        expect .rparen >>= fun _ => pure inner) s fun e t =>
      Derives (.primary e.strip) s.words t.ahead := by
  refine Reads.advance_bind (Reads.bind (ih.expression _ _ le_rfl) fun inner t ht => ?_)
  refine Reads.expect_bind fun hclose => Reads.pure ?_
  have hinner := ht.1.expression_anti (Nat.le_succ Precedence.lowest)
  rw [State.ahead_of_upcoming hclose (by decide)] at hinner
  rw [State.words_of_current h (by decide)]
  exact .grouped hinner

set_option synthInstance.maxSize 400 in
theorem operand_succ (ih : RulesRead depth) (s : State) :
    Reads (Parser.operand (depth + 1)) s fun e t =>
      Derives (.unary e.strip) s.words t.ahead ∧
        Takes e.strip s.words t.upcoming.kind t.ahead := by
  rw [Parser.operand]
  refine Reads.current_bind ?_
  split
  · next h =>
    refine of_primary (Reads.pure ?_)
    rw [State.words_of_current h (by decide)]
    exact .identifier
  · next h => exact of_primary (integerLiteral_reads s h)
  · next h =>
    refine of_primary (Reads.pure ?_)
    rw [State.words_of_current h (by decide)]
    exact .string
  · next h =>
    refine of_primary (Reads.pure ?_)
    rw [State.words_of_current h (by decide)]
    exact .trueLiteral
  · next h =>
    refine of_primary (Reads.pure ?_)
    rw [State.words_of_current h (by decide)]
    exact .falseLiteral
  · next h => exact prefixed_reads ih s (.inl h)
  · next h => exact prefixed_reads ih s (.inr h)
  · next h => exact of_primary (grouped_reads ih s h)
  · next h =>
    refine of_primary (Reads.begin_bind ?_)
    refine Reads.expect_bind fun hopen => Reads.advance_bind ?_
    refine Reads.bind (ih.expression _ _ le_rfl) fun condition t ht => ?_
    refine Reads.expect_bind fun hclose => Reads.expect_bind fun hbrace => ?_
    have hcondition := ht.1.expression_anti (Nat.le_succ Precedence.lowest)
    rw [State.ahead_of_upcoming hclose (by decide)] at hcondition
    rw [State.words_of_current h (by decide)]
    have hopen : s.upcoming.kind = .lparen := hopen
    rw [State.ahead_of_upcoming hopen (by decide)]
    refine Reads.bind (ih.block _ hbrace) fun consequence u hu => Reads.upcoming_bind ?_
    by_cases helse : u.upcoming.kind = .elseKeyword
    · rw [if_pos helse]
      rw [State.ahead_of_upcoming helse (by decide)] at hu
      refine Reads.advance_bind (Reads.expect_bind fun hbrace => ?_)
      refine Reads.bind (ih.block _ hbrace) fun alternative v hv => Reads.pure ?_
      exact .conditionalElse hcondition hu hv
    · rw [if_neg helse]
      exact Reads.pure (.conditional hcondition hu (State.next_ahead helse))
  · next h =>
    refine of_primary (Reads.begin_bind ?_)
    apply Reads.expect_bind
    intro hopen
    refine Reads.bind (parameters_reads depth _) fun names t ht => ?_
    apply Reads.expect_bind
    intro hbrace
    refine Reads.bind (ih.block _ hbrace) fun body u hu => Reads.pure ?_
    rw [State.words_of_current h (by decide)]
    have hopen : s.upcoming.kind = .lparen := hopen
    rw [State.ahead_of_upcoming hopen (by decide)]
    exact .function ht hu
  · next h =>
    refine of_primary (Reads.bind (ih.items _ s (by decide)) fun es t ht => Reads.pure ?_)
    rw [State.words_of_current h (by decide)]
    exact .array ht
  · next h =>
    refine of_primary (Reads.begin_bind ?_)
    refine Reads.bind (ih.pairs _) fun ps t ht => Reads.pure ?_
    rw [State.words_of_current h (by decide)]
    exact .hash ht
  · intro _ e t hrun
    cases hrun

theorem statements_succ (ih : RulesRead depth) (inBlock : Bool) (s : State) :
    Reads (Parser.statements inBlock (depth + 1)) s fun ss t =>
      Derives (.statements (Node.stripAll ss)) s.words t.words := by
  rw [Parser.statements]
  refine Reads.current_bind ?_
  split
  · exact Reads.pure .noStatements
  · refine Reads.bind (attempt_reads (ih.statement _)) fun statement? t ht => ?_
    obtain ⟨n, rfl, hn⟩ := ht
    refine Reads.advance_bind (Reads.bind (ih.statements inBlock _) fun ss u hu => Reads.pure ?_)
    exact .statements hn hu

end RulesRead

theorem rulesRead (depth : Nat) : RulesRead depth := by
  induction depth with
  | zero =>
    constructor
    all_goals
      intros
      exact Reads.throw _
  | succ depth ih =>
    exact
      { statements := ih.statements_succ
        statement := ih.statement_succ
        block := ih.block_succ
        expression := ih.expression_succ
        climb := ih.climb_succ
        operand := ih.operand_succ
        extend := ih.extend_succ
        items := ih.items_succ
        moreItems := ih.moreItems_succ
        pairs := ih.pairs_succ }

/-- A parse without mistakes gives up no statement, and its words derive its program. -/
theorem run_derives {stream : TokenStream} {p : Parse} (hlast : EofLast stream.tokens)
    (hrun : run stream = .ok p) (herrors : p.errors = []) :
    Derives (.statements (Node.stripAll p.statements)) (wordsOf stream.tokens) [] := by
  obtain ⟨t, hevents, hstatements⟩ := run_eq_ok_iff.mp hrun
  have hreports := (errors_eq_nil_iff hevents).mp herrors
  have hbalanced : t.reports.length = t.drops := balanced_of_run hstatements
  have hdrops : t.drops = (State.ofStream stream).drops := by
    rw [← hbalanced, hreports]
    rfl
  have hderives : Derives (.statements (Node.stripAll p.statements))
      (State.ofStream stream).words t.words :=
    (rulesRead _).statements false _ hlast _ _ hstatements hdrops
  rcases statements_ends hstatements with heof | ⟨hfalse, -⟩
  · rwa [State.words_eq_nil heof] at hderives
  · cases hfalse

end Monkey.Parser

namespace Monkey

open Grammar

/-- If a source text parses without mistakes, then all its tokens before the end, each once
    and in order, are a derivation of the program. -/
theorem parse_derives {source : String} {p : Parse} (hparse : parse source = .ok p)
    (herrors : p.errors = []) :
    ∃ tokens, scan source = tokens ++ [endOfSource source] ∧ (∀ t ∈ tokens, t.kind ≠ .eof) ∧
      Derives (.statements (Node.stripAll p.statements)) (tokens.map Token.word) [] := by
  obtain ⟨tokens, hscan, hspelt⟩ := scan_eq source
  have hkinds : ∀ t ∈ tokens, t.kind ≠ .eof := fun t ht => (hspelt t ht).ne_eof
  have hderives : Derives (.statements (Node.stripAll p.statements)) (wordsOf (scan source)) [] :=
    Parser.run_derives (eofLast_scan source) hparse herrors
  refine ⟨tokens, hscan, hkinds, ?_⟩
  have hwords : wordsOf (scan source) = tokens.map Token.word := by
    rw [hscan, wordsOf_append hkinds, wordsOf_cons_eof rfl, List.append_nil]
  rwa [← hwords]

theorem parse_derives_binary :
    ∃ p tokens, parse "a - b * !c[0] - d(1)" = .ok p ∧ p.errors = [] ∧
      scan "a - b * !c[0] - d(1)" = tokens ++ [endOfSource "a - b * !c[0] - d(1)"] ∧
      Derives (.statements (Node.stripAll p.statements)) (tokens.map Token.word) [] := by
  have hparse : ∃ p, parse "a - b * !c[0] - d(1)" = .ok p ∧ p.errors = [] := ⟨_, rfl, rfl⟩
  obtain ⟨p, hparse, herrors⟩ := hparse
  obtain ⟨tokens, hscan, -, hderives⟩ := parse_derives hparse herrors
  exact ⟨p, tokens, hparse, herrors, hscan, hderives⟩

end Monkey
