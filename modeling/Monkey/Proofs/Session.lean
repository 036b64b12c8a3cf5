import Monkey.Proofs.Eval.Keeps
import Monkey.Session

/-!
# Reachable sessions

The sessions that source texts lead to, one run after another, and what their machines keep.
-/

namespace Monkey

/-- The sessions reached from a new one by runs of source texts whose statements meet a
    condition. -/
inductive Session.ReachedBy (ok : List Node → Prop) : Session → Prop
  | start (setting : Setting) : ReachedBy ok (.start setting)
  | run {s t : Session} {source : String} {p : Parse} {answer : Session.Answer} :
      ReachedBy ok s → parse source = .ok p → ok p.statements →
      s.run source = .ok (answer, t) → ReachedBy ok t

/-- The sessions reached by runs of any source texts. -/
abbrev Session.Reachable (s : Session) : Prop := s.ReachedBy fun _ => True

/-- Every condition that follows for parsed statements may take the place of another. -/
theorem Session.ReachedBy.mono {ok ok' : List Node → Prop} {s : Session} (hs : s.ReachedBy ok)
    (h : ∀ source p, parse source = .ok p → ok p.statements → ok' p.statements) :
    s.ReachedBy ok' := by
  induction hs with
  | start setting => exact .start setting
  | run _ hparse hok hrun ih => exact .run ih hparse (h _ _ hparse hok) hrun

/-- Runs a source text, unless it has mistakes, with a given way to evaluate statements. -/
def Session.runBy (evalBy : Setting → FrameId → List Node → Run Value) (s : Session)
    (source : String) : Except Numeral.Refusal (Session.Answer × Session) := do
  let p ← parse source
  let traced := traceLines s.tracing p
  if p.diagnostics.isEmpty then
    let done := s.machine.perform (evalBy s.toSetting s.root p.statements)
    let outcome := match done.result with
      | .ok v => Outcome.finished v
      | .error e => Outcome.stopped e
    pure (⟨outcome, traced ++ done.output⟩, { s with machine := done.machine })
  else
    pure (⟨.rejected p.errors, traced⟩, s)

theorem Session.runBy_evalStatements (s : Session) (source : String) :
    s.runBy evalStatements source = s.run source := rfl

theorem perform_congr {m : Machine} {x y : Run Value}
    (h : x { m with output := [] } = y { m with output := [] }) : m.perform x = m.perform y := by
  unfold Machine.perform
  rw [h]

variable {p : Value → Prop}

theorem perform_keeps {x : Run Value} {post : Value → Prop}
    (hx : Keeps (Machine.Holds p) x post) {m : Machine} (hm : m.Holds p) :
    (m.perform x).machine.Holds p ∧ ∀ v, (m.perform x).result = .ok v → post v := by
  have hrun := hx { m with output := [] } hm
  unfold Machine.perform
  split
  · next heq =>
    rw [heq] at hrun
    refine ⟨hrun.1, fun v hv => ?_⟩
    cases hv
    exact hrun.2
  · next heq =>
    rw [heq] at hrun
    exact ⟨hrun.1, nofun⟩

/-- Two ways to evaluate the statements of a source text that come to the same. -/
theorem Session.runBy_congr {s : Session} {source : String}
    {evalBy evalBy' : Setting → FrameId → List Node → Run Value}
    (h : ∀ p, parse source = .ok p →
      evalBy s.toSetting s.root p.statements { s.machine with output := [] } =
        evalBy' s.toSetting s.root p.statements { s.machine with output := [] }) :
    s.runBy evalBy source = s.runBy evalBy' source := by
  unfold runBy
  cases hparse : parse source with
  | error refusal => rfl
  | ok p =>
    show (if _ then _ else _) = if _ then _ else _
    rw [perform_congr (h p hparse)]

theorem Session.run_eq (s : Session) {source : String} {parsed : Parse}
    (hparse : parse source = .ok parsed) :
    s.run source =
      if parsed.diagnostics.isEmpty then
        .ok (⟨(s.evaluate parsed.statements).1.outcome,
          traceLines s.tracing parsed ++ (s.evaluate parsed.statements).1.output⟩,
          (s.evaluate parsed.statements).2)
      else .ok (⟨.rejected parsed.errors, traceLines s.tracing parsed⟩, s) := by
  unfold Session.run
  rw [hparse]
  show (if _ then _ else _) = _
  split <;> rfl

/-- A run of a parsed source text either changes nothing or evaluates the statements. -/
theorem Session.run_cases {s t : Session} {source : String} {parsed : Parse} {answer : Answer}
    (hparse : parse source = .ok parsed) (h : s.run source = .ok (answer, t)) :
    (t = s ∧ ∃ errors, answer.outcome = .rejected errors) ∨
      (t = (s.evaluate parsed.statements).2 ∧
        answer.outcome = (s.evaluate parsed.statements).1.outcome) := by
  rw [s.run_eq hparse] at h
  split at h <;> cases h
  · exact .inr ⟨rfl, rfl⟩
  · exact .inl ⟨rfl, _, rfl⟩

/-- The sessions reached from a new one by evaluating what is read from source texts, with
    mistakes in them or without. -/
inductive Session.Visited : Session → Prop
  | start (setting : Setting) : Visited (.start setting)
  | evaluate {s : Session} {source : String} {p : Parse} :
      Visited s → parse source = .ok p → Visited (s.evaluate p.statements).2

theorem Session.ReachedBy.visited {ok : List Node → Prop} {s : Session} (h : s.ReachedBy ok) :
    s.Visited := by
  induction h with
  | start setting => exact .start setting
  | run _ hparse _ hrun ih =>
    rcases Session.run_cases hparse hrun with ⟨rfl, -⟩ | ⟨rfl, -⟩
    · exact ih
    · exact ih.evaluate hparse

/-- What every run keeps holds on the machines of all sessions reached. -/
theorem Session.ReachedBy.holds {ok : List Node → Prop} {post : Value → Prop}
    (hkeeps : ∀ setting frame ss, ok ss →
      Keeps (Machine.Holds p) (evalStatements setting frame ss) post)
    {s : Session} (h : s.ReachedBy ok) : s.machine.Holds p := by
  induction h with
  | start setting => exact Heap.Everywhere.create Heap.everywhere_empty none
  | run _ hparse hok hrun ih =>
    rcases Session.run_cases hparse hrun with ⟨rfl, -⟩ | ⟨rfl, -⟩
    · exact ih
    · exact (perform_keeps (hkeeps _ _ _ hok) ih).1

/-! ## One source text after the other -/

/-- What comes of a source text: the answer, if the text can be read at all, and the session
    after it. -/
structure Session.Turn where
  answer : Except Numeral.Refusal Session.Answer
  session : Session

/-- Runs a source text.  One that cannot be read leaves the session as it is. -/
def Session.turn (s : Session) (source : String) : Session.Turn :=
  match s.run source with
  | .ok (answer, t) => ⟨.ok answer, t⟩
  | .error refusal => ⟨.error refusal, s⟩

/-- Runs source texts one after the other. -/
def Session.runAll (s : Session) : List String → List Session.Turn
  | [] => []
  | source :: rest => s.turn source :: (s.turn source).session.runAll rest

end Monkey
