import Monkey.Proofs.Parser.Progress

/-!
# One mistake for every statement given up

What happens while statements are read is well nested: a statement that is given up is closed by
its one report and the note that it is given up, and everything between its start and the report
belongs to statements nested in it.  A statement that is kept reports nothing of its own.  So
there are as many mistakes as statements given up.
-/

namespace Monkey

namespace Parser

/-- The position of a statement that is given up. -/
def Event.drop? : Event → Option Nat
  | dropped position => some position
  | _ => none

/-- What may happen, in order, while statements are read.  The end of a statement that is kept
    leaves no mark, so what follows it stands beside what happened in it. -/
inductive Course : List Event → Prop
  | nil : Course []
  | began (rule : Rule) (token : Token) {es : List Event} : Course es →
      Course (.began rule token :: es)
  | kept (position : Nat) {es : List Event} : Course es → Course (.attempted position :: es)
  | givenUp (position : Nat) (d : Diagnostic) {es fs : List Event} : Course es → Course fs →
      Course (.attempted position :: (es ++ .reported d :: .dropped position :: fs))

namespace Course

variable {es fs : List Event}

theorem append (h : Course es) (h' : Course fs) : Course (es ++ fs) := by
  induction h with
  | nil => exact h'
  | began rule token _ ih => exact .began rule token ih
  | kept position _ ih => exact .kept position ih
  | givenUp position d hes _ _ ih =>
    have happend := givenUp position d hes ih
    simpa only [List.cons_append, List.append_assoc] using happend

/-- Every report belongs to a statement given up, and every such statement has one. -/
theorem length_reports (h : Course es) :
    (es.filterMap Event.diagnostic?).length = (es.filterMap Event.drop?).length := by
  induction h with
  | nil => rfl
  | began rule token _ ih => exact ih
  | kept position _ ih => exact ih
  | givenUp position d _ _ ihe ihf =>
    simp only [List.filterMap_cons, List.filterMap_append, Event.diagnostic?, Event.drop?,
      List.length_append, List.length_cons]
    omega

/-- Statements that are given up have been taken up. -/
theorem length_drops_le (h : Course es) :
    (es.filterMap Event.drop?).length ≤ (es.filterMap Event.attempt?).length := by
  induction h with
  | nil => exact le_rfl
  | began rule token _ ih => exact ih
  | kept position _ ih => exact ih.trans (Nat.le_succ _)
  | givenUp position d _ _ ihe ihf =>
    simp only [List.filterMap_cons, List.filterMap_append, Event.attempt?, Event.drop?,
      List.length_append, List.length_cons]
    omega

end Course

/-! ## Every step keeps the course -/

/-- What has happened since a log, read with its newest event first, is well nested. -/
def Since (log : List Event) (s : State) : Prop := ∃ es, Course es ∧ s.log = es.reverse ++ log

/-- What has happened since a log is well nested, but for the report that comes last. -/
def Ending (log : List Event) (s : State) : Prop :=
  ∃ es d, Course es ∧ s.log = .reported d :: (es.reverse ++ log)

namespace Since

variable {log : List Event} {s t : State}

theorem refl (s : State) : Since s.log s := ⟨[], .nil, rfl⟩

theorem began (h : Since log s) (rule : Rule) (token : Token) :
    Since log (s.note (.began rule token)) := by
  obtain ⟨es, hes, hlog⟩ := h
  refine ⟨es ++ [.began rule token], hes.append (.began rule token .nil), ?_⟩
  rw [State.note_log, hlog, List.reverse_append]
  rfl

theorem reported (h : Since log s) (d : Diagnostic) : Ending log (s.note (.reported d)) := by
  obtain ⟨es, hes, hlog⟩ := h
  exact ⟨es, d, hes, by rw [State.note_log, hlog]⟩

/-- A statement that is kept. -/
theorem kept (h : Since log s) (ht : Since (s.note (.attempted s.passed)).log t) :
    Since log t := by
  obtain ⟨es, hes, hlog⟩ := h
  obtain ⟨fs, hfs, hlog'⟩ := ht
  refine ⟨es ++ .attempted s.passed :: fs, hes.append (.kept s.passed hfs), ?_⟩
  rw [hlog', State.note_log, hlog]
  simp

/-- A statement that is given up after its report. -/
theorem givenUp (h : Since log s) (ht : Ending (s.note (.attempted s.passed)).log t) :
    Since log (t.note (.dropped s.passed)) := by
  obtain ⟨es, hes, hlog⟩ := h
  obtain ⟨fs, d, hfs, hlog'⟩ := ht
  refine ⟨_, hes.append (.givenUp s.passed d hfs .nil), ?_⟩
  rw [State.note_log, hlog', State.note_log, hlog]
  simp

end Since

/-- What happens while a statement is read, since a log, is well nested. -/
def Invariant.course : Invariant where
  World := List Event
  stand
    | log, .gone, s => Ending log s
    | log, _, s => Since log s
  read h _ := h
  advance h := h
  began rule hp h := by
    rcases hp with rfl | rfl <;> exact Since.began h rule _
  integer h _ _ _ := h
  outOfRange h _ _ _ := h.reported _
  noExpression h _ := h.reported _
  unexpected h _ _ := h.reported _
  body h := h
  ended h _ := h
  attempted h _ := ⟨_, .refl _, fun ht => h.kept ht, fun ht => h.givenUp ht⟩

/-- What happens in an attempt at a position: what belongs to statements nested in it, and if it
    gives no statement its own report, right before it is given up. -/
inductive Attempt (position : Nat) : Option Node → List Event → Prop
  | kept (n : Node) {es : List Event} : Course es →
      Attempt position (some n) (.attempted position :: es)
  | givenUp (d : Diagnostic) {es : List Event} : Course es →
      Attempt position none (.attempted position :: (es ++ [.reported d, .dropped position]))

/-- An attempt that is not cut short reports one mistake of its own if it gives no statement, and
    none if it gives one. -/
theorem attempt_accounts {depth : Nat} {s t : State} {n? : Option Node}
    (hdepth : 8 * s.rest.length + 6 ≤ depth) (h : attempt (statement depth) s = .ok n? t) :
    ∃ es, t.log = es.reverse ++ s.log ∧ Attempt s.passed n? es := by
  have hends := Invariant.course.statement_ends (s := s.note (.attempted s.passed))
    (.refl _) hdepth
  unfold attempt at h
  rcases hends with ⟨n, u, hrun, es, hes, hlog⟩ | ⟨u, hrun, es, d, hes, hlog⟩ | ⟨_, u, hrun, -⟩
  · rw [hrun] at h
    cases h
    refine ⟨_, ?_, .kept n hes⟩
    rw [hlog, State.note_log]
    simp
  · rw [hrun] at h
    cases h
    refine ⟨_, ?_, .givenUp d hes⟩
    rw [State.note_log, hlog, State.note_log]
    simp
  · rw [hrun] at h
    cases h

end Parser

/-- Where the statements that are given up start, in the order in which they are given up. -/
def Parse.givenUp (p : Parse) : List Nat := p.events.filterMap Parser.Event.drop?

namespace Parser

/-- What happens in a whole parse is well nested, so there are as many mistakes as statements
    given up: none only if no statement is, and no more than tokens before ends of the input.
    An attempt, made anywhere with depth to spare, reports nothing of its own if it gives a
    statement and one mistake if it does not. -/
theorem run_mistakes {stream : TokenStream} {p : Parse} (h : run stream = .ok p) :
    Course p.events ∧ p.errors.length = p.givenUp.length ∧
      (p.errors = [] ↔ p.givenUp = []) ∧
      p.errors.length ≤ stream.tokens.countP (fun token => token.kind ≠ .eof) ∧
      ∀ (depth : Nat) (s t : State) (n? : Option Node), 8 * s.rest.length + 6 ≤ depth →
        attempt (statement depth) s = .ok n? t →
        ∃ es, t.log = es.reverse ++ s.log ∧ Attempt s.passed n? es := by
  obtain ⟨t, hevents, es, hes, hlog⟩ :=
    Invariant.course.exists_of_run (w := []) (.refl (.ofStream stream)) h
  have hcourse : Course p.events := by
    rw [hevents, hlog, List.append_nil, List.reverse_reverse]
    exact hes
  have hlength : p.errors.length = p.givenUp.length := by
    unfold Parse.errors
    rw [List.length_map]
    exact hcourse.length_reports
  have hattempts : p.attempts.length ≤ stream.tokens.countP fun token => token.kind ≠ .eof := by
    obtain ⟨t, hevents, horder⟩ :=
      (Invariant.inOrder stream.tokens).exists_of_run (w := ()) (inOrder_ofStream stream) h
    rw [Parse.attempts_eq hevents, List.length_reverse]
    exact InOrder.length_le horder
  refine ⟨hcourse, hlength, ?_, ?_, fun _ _ _ _ => attempt_accounts⟩
  · rw [← List.length_eq_zero_iff, hlength, List.length_eq_zero_iff]
  · exact hlength.trans_le (hcourse.length_drops_le.trans hattempts)

/-- The block swallows its closing brace with the statement that it gives up, and is closed by
    the end of the input: one statement that is kept, and three that are given up within it. -/
theorem run_mistakes_nested :
    let stream := TokenStream.ofSource "if (true) \x7b let 1; return \x7d ] 3;"
    ∃ p, run stream = .ok p ∧ p.statements.length = 1 ∧ p.givenUp = [5, 8, 10] ∧
      Course p.events ∧ p.errors.length = p.givenUp.length ∧ p.errors.length ≤ 13 := by
  intro stream
  have hfacts : (run stream).map (fun p => (p.statements.length, p.givenUp)) =
      .ok (1, [5, 8, 10]) := by decide
  have hcount : stream.tokens.countP (fun token => token.kind ≠ .eof) = 13 := by decide
  obtain ⟨p, hp, hfacts⟩ := exists_of_map_ok hfacts
  obtain ⟨hstatements, hgivenUp⟩ := Prod.mk.inj hfacts
  obtain ⟨hcourse, hlength, -, hle, -⟩ := run_mistakes hp
  exact ⟨p, hp, hstatements, hgivenUp, hcourse, hlength, hcount ▸ hle⟩

end Parser

end Monkey
