import Mathlib.Data.List.Perm.Subperm
import Monkey.Proofs.Parser.Accounts

/-!
# Progress

The parser comes to an end on every token stream, whatever kinds of token stand in it and
wherever: a depth that covers the tokens left is as good as any greater one, so the bound that
the rules carry decides nothing.  Every statement attempt starts at a later token than the
attempts before it, none at an end of the input, and the program ends at one.
-/

namespace Monkey

namespace Parser

/-! ## Attempts in order -/

/-- The position at which a statement is taken up. -/
def Event.attempt? : Event → Option Nat
  | attempted position => some position
  | _ => none

namespace State

/-- Where statements have been taken up so far, the newest first. -/
def attempts (s : State) : List Nat := s.log.filterMap Event.attempt?

@[simp] theorem attempts_note_attempted (s : State) (n : Nat) :
    (s.note (.attempted n)).attempts = n :: s.attempts := rfl

end State

/-- Where a statement may be taken up: at a token of the stream that is no end of the input. -/
def Starting (tokens : List Token) (i : Nat) : Prop :=
  ∃ token, tokens[i]? = some token ∧ token.kind ≠ .eof

/-- The statements so far were taken up at tokens of a stream before a position, each later than
    those before it, and the tokens left are those from the current position on. -/
structure InOrder (tokens : List Token) (bound : Nat) (s : State) : Prop where
  rest : s.rest = tokens.drop s.passed
  later : s.attempts.Pairwise (· > ·)
  starting : ∀ i ∈ s.attempts, i < bound ∧ Starting tokens i

namespace InOrder

variable {tokens : List Token} {bound bound' : Nat} {s t : State}

theorem mono (h : InOrder tokens bound s) (hle : bound ≤ bound') : InOrder tokens bound' s :=
  ⟨h.rest, h.later, fun i hi => ⟨(h.starting i hi).1.trans_le hle, (h.starting i hi).2⟩⟩

/-- A note that takes up no statement. -/
theorem note (h : InOrder tokens bound s) {e : Event}
    (he : (s.note e).attempts = s.attempts := by rfl) : InOrder tokens bound (s.note e) :=
  ⟨h.rest, he.symm ▸ h.later, he.symm ▸ h.starting⟩

theorem advance (h : InOrder tokens bound s) : InOrder tokens bound s.advance :=
  ⟨by rw [State.advance_rest, State.advance_passed, h.rest, List.tail_drop], h.later, h.starting⟩

/-- Before the end of the input the current token is the one at the current position. -/
theorem starting_passed (h : InOrder tokens bound s) (hne : s.current.kind ≠ .eof) :
    Starting tokens s.passed := by
  refine ⟨s.current, ?_, hne⟩
  rw [← List.head?_drop, ← h.rest, State.rest_eq_cons hne]
  rfl

/-- Taking up a statement at a position that no attempt has reached. -/
theorem attempted (h : InOrder tokens s.passed s) (hne : s.current.kind ≠ .eof) :
    InOrder tokens (s.passed + 1) (s.note (.attempted s.passed)) := by
  refine ⟨h.rest, ?_, ?_⟩
  · rw [State.attempts_note_attempted, List.pairwise_cons]
    exact ⟨fun i hi => (h.starting i hi).1, h.later⟩
  · rw [State.attempts_note_attempted, List.forall_mem_cons]
    exact ⟨⟨Nat.lt_succ_self _, h.starting_passed hne⟩, (h.mono (Nat.le_succ _)).starting⟩

end InOrder

/-- Statements are taken up in order: one may be taken up at the current token where it is a
    statement's turn, and at the next token elsewhere.  Only an integer literal among the tokens
    that cannot be read stops parsing. -/
def Invariant.inOrder (tokens : List Token) : Invariant where
  World := Unit
  stand
    | _, .turn, s => InOrder tokens s.passed s
    | _, _, s => InOrder tokens (s.passed + 1) s
  refused refusal :=
    ∃ token ∈ tokens, token.kind = .int ∧ Numeral.read token.literal = .error refusal
  read h _ := h
  advance h := h.advance.mono (Nat.le_succ _)
  began rule hp h := by
    rcases hp with rfl | rfl <;> exact InOrder.note h
  integer h _ _ _ := h
  outOfRange h _ _ _ := h.note
  refuses {_ s _} h hk hread := by
    have hmem : s.current ∈ tokens.drop s.passed :=
      h.rest ▸ State.current_mem_rest (by rw [hk]; decide)
    exact ⟨_, List.mem_of_mem_drop hmem, hk, hread⟩
  noExpression h _ := h.note
  unexpected h _ _ := h.note
  body h := h.advance
  ended h _ := h.mono (Nat.le_succ _)
  attempted h hne := ⟨(), h.attempted hne, fun ht => ht.advance, fun ht => ht.note.advance⟩

theorem InOrder.length_le {tokens : List Token} {bound : Nat} {s : State}
    (h : InOrder tokens bound s) :
    s.attempts.length ≤ tokens.countP fun token => token.kind ≠ .eof := by
  have hsubset : s.attempts ⊆ tokens.findIdxs fun token => token.kind ≠ .eof := by
    intro i hi
    obtain ⟨-, token, hget, hne⟩ := h.starting i hi
    obtain ⟨hlt, rfl⟩ := List.getElem?_eq_some_iff.mp hget
    exact List.mem_findIdxs_iff_exists_getElem_pos.mpr ⟨hlt, by simpa using hne⟩
  have hnodup : s.attempts.Nodup := h.later.imp Nat.ne_of_gt
  calc s.attempts.length
    _ ≤ (tokens.findIdxs fun token => token.kind ≠ .eof).length :=
      (hnodup.subperm hsubset).length_le
    _ = tokens.countP fun token => token.kind ≠ .eof := List.length_findIdxs

/-- No statement of a whole stream has been taken up yet. -/
theorem inOrder_ofStream (stream : TokenStream) :
    InOrder stream.tokens (State.ofStream stream).passed (.ofStream stream) :=
  ⟨rfl, .nil, nofun⟩

end Parser

namespace Parse

/-- Where statements are taken up while tokens are parsed, in order. -/
def attempts (p : Parse) : List Nat := p.events.filterMap Parser.Event.attempt?

theorem attempts_eq {p : Parse} {t : Parser.State} (h : p.events = t.log.reverse) :
    p.attempts = t.attempts.reverse := by
  unfold attempts Parser.State.attempts
  rw [h, List.filterMap_reverse]

end Parse

namespace Parser

/-- Parsing comes to an end on every token stream whose integer literals can be read, with the
    same result however much deeper the rules may go.  Every statement is taken up at a token
    later than those before it, and none at an end of the input, so there are no more attempts
    than other tokens.  The program ends at an end of the input. -/
theorem run_progresses (stream : TokenStream)
    (hread : ∀ token ∈ stream.tokens, token.kind = .int →
      ∃ n, Numeral.read token.literal = .ok n) :
    ∃ (p : Parse) (t : State), run stream = .ok p ∧ p.events = t.log.reverse ∧
      (∀ depth, depthBound stream.tokens.length ≤ depth →
        statements false depth (.ofStream stream) = .ok p.statements t) ∧
      p.attempts.Pairwise (· < ·) ∧ (∀ i ∈ p.attempts, Starting stream.tokens i) ∧
      p.attempts.length ≤ stream.tokens.countP (fun token => token.kind ≠ .eof) ∧
      t.current.kind = .eof := by
  rcases (Invariant.inOrder stream.tokens).run_ends (w := ()) (inOrder_ofStream stream) with
    ⟨ss, t, hrun, horder, hdeep⟩ | ⟨refusal, -, token, hmem, hint, hrefused⟩
  · have horder : InOrder stream.tokens (t.passed + 1) t := horder
    have hattempts : Parse.attempts ⟨ss, t.log.reverse⟩ = t.attempts.reverse :=
      Parse.attempts_eq rfl
    refine ⟨⟨ss, t.log.reverse⟩, t, hrun, rfl, hdeep, ?_, ?_, ?_, ?_⟩
    · rw [hattempts, List.pairwise_reverse]
      exact horder.later
    · rw [hattempts]
      exact fun i hi => (horder.starting i (List.mem_reverse.mp hi)).2
    · rw [hattempts, List.length_reverse]
      exact horder.length_le
    · exact (statements_ends (hdeep _ le_rfl)).resolve_right fun h => Bool.false_ne_true h.1
  · obtain ⟨n, hn⟩ := hread token hmem hint
    rw [hn] at hrefused
    cases hrefused

/-- An end of the input in the middle closes the block, and the hash after it is never closed. -/
theorem run_progresses_unclosed :
    let tokens : List Token := [⟨.function, "fn", 1, 1⟩, ⟨.lparen, "(", 1, 3⟩, ⟨.rparen, ")", 1, 4⟩,
      ⟨.lbrace, "\x7b", 1, 6⟩, ⟨.letKeyword, "let", 1, 8⟩, ⟨.eof, "", 1, 11⟩, ⟨.int, "1", 1, 11⟩,
      ⟨.plus, "+", 1, 13⟩, ⟨.lbrace, "\x7b", 1, 15⟩]
    (∀ token ∈ tokens, token.kind = .int → ∃ n, Numeral.read token.literal = .ok n) ∧
      ∃ (p : Parse) (t : State), run (.ofTokens tokens) = .ok p ∧ p.attempts = [0, 4, 6] ∧
        p.attempts.Pairwise (· < ·) ∧ p.attempts.length ≤ 8 ∧ t.current.kind = .eof := by
  intro tokens
  have hread : ∀ token ∈ tokens, token.kind = .int →
      ∃ n, Numeral.read token.literal = .ok n := by
    simp only [tokens, List.forall_mem_cons]
    refine ⟨nofun, nofun, nofun, nofun, nofun, nofun, fun _ => ⟨1, by decide⟩, nofun, nofun, nofun⟩
  obtain ⟨p, t, hrun, -, -, hlater, -, hfew, hend⟩ := run_progresses (.ofTokens tokens) hread
  have hattempts : (run (.ofTokens tokens)).map Parse.attempts = .ok [0, 4, 6] := by decide
  rw [hrun] at hattempts
  exact ⟨hread, p, t, hrun, Except.ok.inj hattempts, hlater, hfew, hend⟩

end Parser

end Monkey
