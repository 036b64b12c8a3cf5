import Monkey.Proofs.Parser.Invariant

/-!
# The chronicle of a parse

What has been logged when the parser stands at a token.  Mistakes are reported token by token:
about each token at most one as the next one and one as the current one, in this order, and the
second only when the statement given up at the first is followed by a statement that starts at
that token.  The log is read with its newest event first.
-/

namespace Monkey

namespace TokenStream

/-- What comes behind the last token. -/
def final (stream : TokenStream) : Token := ⟨.eof, "", stream.endLine, stream.endColumn⟩

/-- The token at a position. -/
def token (stream : TokenStream) (i : Nat) : Token := stream.tokens.getD i stream.final

end TokenStream

/-- Whether a mistake is about the current token, not the next. -/
def Cause.IsCurrent (cause : Cause) : Prop := ∀ kind, cause ≠ .unexpected kind

theorem Cause.isCurrent_noExpression : IsCurrent .noExpression := by
  intro kind h
  cases h

theorem Cause.isCurrent_outOfRange : IsCurrent .outOfRange := by
  intro kind h
  cases h

namespace Parser

variable {stream : TokenStream}

/-- The rules taken up at a token. -/
def BeganAt (token : Token) (events : List Event) : Prop :=
  ∀ e ∈ events, ∃ rule, e = .began rule token

/-- The logs in which all mistakes are about tokens before a position. -/
inductive Chronicle (stream : TokenStream) : Nat → List Event → Prop
  | nil {bound : Nat} : Chronicle stream bound []
  | note {bound : Nat} {e : Event} {log : List Event} : e.diagnostic? = none →
      Chronicle stream bound log → Chronicle stream bound (e :: log)
  /-- The first mistake about a token. -/
  | first {bound i : Nat} {d : Diagnostic} {log : List Event} : i < bound →
      d.token = stream.token i → Chronicle stream i log →
      Chronicle stream bound (.reported d :: log)
  /-- A token that did not fit into a statement, and that no expression can start with. -/
  | again {bound i j : Nat} {kind : Kind} {cause : Cause} {begun log : List Event} : i < bound →
      cause.IsCurrent → BeganAt (stream.token i) begun → Chronicle stream i log →
      Chronicle stream bound (.reported ⟨cause, stream.token i⟩ ::
        (begun ++ .attempted i :: .dropped j ::
          .reported ⟨.unexpected kind, stream.token i⟩ :: log))

namespace Chronicle

variable {bound bound' : Nat} {log : List Event}

theorem mono (h : Chronicle stream bound log) (hle : bound ≤ bound') :
    Chronicle stream bound' log := by
  induction h with
  | nil => exact .nil
  | note he _ ih => exact .note he (ih hle)
  | first hi htoken h _ => exact .first (by omega) htoken h
  | again hi hcause hbegun h _ => exact .again (by omega) hcause hbegun h

theorem append {front : List Event} (hfront : ∀ e ∈ front, e.diagnostic? = none)
    (h : Chronicle stream bound log) : Chronicle stream bound (front ++ log) := by
  induction front with
  | nil => exact h
  | cons e front ih =>
    simp only [List.forall_mem_cons] at hfront
    exact .note hfront.1 (ih hfront.2)

end Chronicle

/-! ## Where a rule stands -/

/-- The state stands at its position in a stream. -/
structure Along (stream : TokenStream) (s : State) : Prop where
  rest : s.rest = stream.tokens.drop s.passed
  final : s.final = stream.final

namespace Along

variable {s : State}

theorem current (h : Along stream s) : s.current = stream.token s.passed := by
  rw [State.current, h.rest, h.final, TokenStream.token, List.headD_eq_head?_getD,
    List.head?_drop, List.getD_eq_getElem?_getD]

theorem advance (h : Along stream s) : Along stream s.advance := by
  refine ⟨?_, h.final⟩
  rw [State.advance_rest, State.advance_passed, h.rest, List.tail_drop]

theorem upcoming (h : Along stream s) : s.upcoming = stream.token (s.passed + 1) :=
  h.advance.current

theorem note (h : Along stream s) (e : Event) : Along stream (s.note e) := ⟨h.rest, h.final⟩

end Along

/-- Nothing has been reported about the token at a position or later ones, unless it was just
    found not to fit, and since then has happened what is in front. -/
inductive Opens (stream : TokenStream) (i : Nat) (front : List Event → Prop) (log : List Event) :
    Prop
  | untold : Chronicle stream i log → Opens stream i front log
  | misfit (kind : Kind) {recent older : List Event} : front recent →
      log = recent ++ .reported ⟨.unexpected kind, stream.token i⟩ :: older →
      Chronicle stream i older → Opens stream i front log

/-- A loop stands at a token: the next statement may be taken up here. -/
structure Turn (stream : TokenStream) (s : State) : Prop where
  along : Along stream s
  log : Opens stream s.passed (fun recent => ∃ j, recent = [.dropped j]) s.log

/-- A rule stands at a token that it has not looked at. -/
structure Fresh (stream : TokenStream) (s : State) : Prop where
  along : Along stream s
  log : Opens stream s.passed (fun recent => ∃ begun j, BeganAt (stream.token s.passed) begun ∧
    recent = begun ++ [.attempted s.passed, .dropped j]) s.log

/-- A rule stands at a token that it has read, so that later mistakes are about later tokens. -/
structure Spent (stream : TokenStream) (s : State) : Prop where
  along : Along stream s
  log : Chronicle stream (s.passed + 1) s.log

/-- A rule has given its statement up: nothing has been reported about later tokens but, last of
    all, that the next one does not fit. -/
structure Abandoned (stream : TokenStream) (s : State) : Prop where
  along : Along stream s
  log : Opens stream (s.passed + 1) (fun recent => recent = []) s.log

theorem BeganAt.diagnostic? {token : Token} {events : List Event} (h : BeganAt token events) :
    ∀ e ∈ events, e.diagnostic? = none := by
  intro e he
  obtain ⟨rule, rfl⟩ := h e he
  rfl

/-- A token that was found not to fit belongs to those before the next. -/
theorem Opens.chronicle {i : Nat} {front : List Event → Prop} {log : List Event}
    (h : Opens stream i front log)
    (hfront : ∀ recent, front recent → ∀ e ∈ recent, e.diagnostic? = none) :
    Chronicle stream (i + 1) log := by
  cases h with
  | untold h => exact h.mono (Nat.le_succ i)
  | misfit kind hrecent heq h =>
    rw [heq]
    exact .append (hfront _ hrecent) (.first (Nat.lt_succ_self i) rfl h)

namespace Turn

variable {s : State}

theorem spent (h : Turn stream s) : Spent stream s := by
  refine ⟨h.along, h.log.chronicle ?_⟩
  rintro recent ⟨j, rfl⟩
  simp [Event.diagnostic?]

theorem attempted (h : Turn stream s) : Fresh stream (s.note (.attempted s.passed)) := by
  refine ⟨h.along.note _, ?_⟩
  cases h.log with
  | untold hlog => exact .untold (.note rfl hlog)
  | misfit kind hrecent heq hlog =>
    obtain ⟨j, rfl⟩ := hrecent
    refine .misfit kind ⟨[], j, ?_, rfl⟩ ?_ hlog
    · simp [BeganAt]
    · rw [State.note_log, heq]
      rfl

end Turn

namespace Fresh

variable {s : State}

theorem spent (h : Fresh stream s) : Spent stream s := by
  refine ⟨h.along, h.log.chronicle ?_⟩
  rintro recent ⟨begun, j, hbegun, rfl⟩
  have hquiet := hbegun.diagnostic?
  simp only [List.mem_append, List.mem_cons, List.not_mem_nil, or_false]
  rintro e (he | rfl | rfl)
  · exact hquiet e he
  · rfl
  · rfl

theorem began (h : Fresh stream s) (rule : Rule) :
    Fresh stream (s.note (.began rule s.current)) := by
  refine ⟨h.along.note _, ?_⟩
  cases h.log with
  | untold hlog => exact .untold (.note rfl hlog)
  | misfit kind hrecent heq hlog =>
    obtain ⟨begun, j, hbegun, rfl⟩ := hrecent
    refine .misfit kind ⟨.began rule s.current :: begun, j, ?_, rfl⟩ ?_ hlog
    · rw [h.along.current]
      exact List.forall_mem_cons.mpr ⟨⟨rule, rfl⟩, hbegun⟩
    · rw [State.note_log, heq]
      rfl

/-- A mistake about the token at which a rule stands. -/
theorem reported (h : Fresh stream s) {cause : Cause} (hcause : cause.IsCurrent) :
    Abandoned stream (s.note (.reported ⟨cause, s.current⟩)) := by
  refine ⟨h.along.note _, .untold ?_⟩
  rw [State.note_log, h.along.current]
  cases h.log with
  | untold hlog => exact .first (Nat.lt_succ_self _) rfl hlog
  | misfit kind hrecent heq hlog =>
    obtain ⟨begun, j, hbegun, rfl⟩ := hrecent
    rw [heq, List.append_assoc]
    exact .again (Nat.lt_succ_self _) hcause hbegun hlog

end Fresh

namespace Spent

variable {s : State}

theorem advance_turn (h : Spent stream s) : Turn stream s.advance :=
  ⟨h.along.advance, .untold h.log⟩

theorem advance_fresh (h : Spent stream s) : Fresh stream s.advance :=
  ⟨h.along.advance, .untold h.log⟩

theorem began (h : Spent stream s) (rule : Rule) :
    Spent stream (s.note (.began rule s.current)) :=
  ⟨h.along.note _, .note rfl h.log⟩

/-- The next token does not fit. -/
theorem reported (h : Spent stream s) (kind : Kind) :
    Abandoned stream (s.note (.reported ⟨.unexpected kind, s.upcoming⟩)) := by
  refine ⟨h.along.note _, .misfit kind rfl ?_ h.log⟩
  rw [h.along.upcoming]
  rfl

end Spent

/-- The statement after one that was given up. -/
theorem Abandoned.dropped {s : State} (h : Abandoned stream s) (j : Nat) :
    Turn stream (s.note (.dropped j)).advance := by
  refine ⟨(h.along.note _).advance, ?_⟩
  cases h.log with
  | untold hlog => exact .untold (.note rfl hlog)
  | misfit kind hrecent heq hlog =>
    refine .misfit kind ⟨j, rfl⟩ ?_ hlog
    rw [State.advance_log, State.note_log, heq, hrecent]
    rfl

/-! ## Every step keeps the chronicle -/

/-- Where the parser stands, so has been logged. -/
def Invariant.chronicle (stream : TokenStream) : Invariant where
  World := Unit
  stand
    | _, .turn => Turn stream
    | _, .fresh => Fresh stream
    | _, .spent => Spent stream
    | _, .gone => Abandoned stream
  read h _ := h.spent
  advance h := h.advance_fresh
  began rule hp h := by
    rcases hp with rfl | rfl
    · exact Fresh.began h rule
    · exact Spent.began h rule
  integer h _ _ _ := h.spent
  outOfRange h _ _ _ := h.reported Cause.isCurrent_outOfRange
  noExpression h _ := h.reported Cause.isCurrent_noExpression
  unexpected h _ _ := h.reported _
  body h := h.advance_turn
  ended h _ := h.spent
  attempted h _ := ⟨(), h.attempted, fun ht => ht.advance_turn, fun ht => ht.dropped _⟩

/-- What has been logged at the end of a whole stream is a chronicle. -/
theorem exists_chronicle {p : Parse} (h : run stream = .ok p) :
    ∃ bound, Chronicle stream bound p.events.reverse := by
  have hturn : Turn stream (.ofStream stream) := ⟨⟨rfl, rfl⟩, .untold .nil⟩
  obtain ⟨t, hevents, hspent⟩ := (Invariant.chronicle stream).exists_of_run (w := ()) hturn h
  refine ⟨t.passed + 1, ?_⟩
  rw [hevents, List.reverse_reverse]
  exact hspent.log

end Parser

end Monkey
