import Monkey.Proofs.Eval.WatchedAgrees
import Monkey.Proofs.Session

/-!
# Escaping returns

Where no early return is bound or held by another value, an early return escapes exactly
where a return statement ends an expression whose value gets to a site.  Where it does not,
evaluation keeps early returns out of bindings, arrays, hashes, arguments and results.
-/

namespace Monkey

namespace Watched

variable {p : Value → Prop} {alarm alarm' : Ending → Bool} {s : Session}

/-- An answer whose value, if there is one, meets a condition, and a session whose bound
    values do. -/
def DoneMeets (p : Value → Prop) (answer : Session.Answer) (t : Session) : Prop :=
  t.machine.Holds p ∧ ∀ v, answer.outcome = .finished v → v.Everywhere p

theorem evaluate_alike (ht : Tells p alarm alarm') (hs : s.machine.Holds p) (ss : List Node) :
    evaluate alarm s ss = evaluate alarm' s ss ∧ match evaluate alarm' s ss with
      | .ok (answer, t) => s.evaluate ss = (answer, t) ∧ DoneMeets p answer t
      | .error _ => ∃ e, alarm' e := by
  obtain ⟨heq, hrun⟩ := evalStatements_alike ht s.toSetting s.root ss
    { s.machine with output := [] } hs
  unfold evaluate Session.evaluate Machine.perform
  rw [heq]
  refine ⟨rfl, ?_⟩
  split at hrun
  · next h =>
    rw [h, hrun.1]
    refine ⟨rfl, hrun.2.1, fun v hv => ?_⟩
    cases hv
    exact hrun.2.2
  · next h =>
    rw [h, hrun.1]
    exact ⟨rfl, hrun.2, nofun⟩
  · next h =>
    rw [h]
    exact hrun

theorem run_eq (alarm : Ending → Bool) (s : Session) {source : String} {parsed : Parse}
    (hparse : parse source = .ok parsed) :
    run alarm s source =
      if parsed.diagnostics.isEmpty then
        match evaluate alarm s parsed.statements with
        | .error site => .ok (.error site)
        | .ok (answer, t) =>
          .ok (.ok (⟨answer.outcome, Session.traceLines s.tracing parsed ++ answer.output⟩, t))
      else .ok (.ok (⟨.rejected parsed.errors, Session.traceLines s.tracing parsed⟩, s)) := by
  unfold run
  rw [hparse]
  show (if _ then _ else _) = _
  split
  · cases evaluate alarm s parsed.statements <;> rfl
  · rfl

theorem run_alike (ht : Tells p alarm alarm') (hs : s.machine.Holds p) (source : String) :
    run alarm s source = run alarm' s source ∧ match run alarm' s source with
      | .ok (.ok (answer, t)) => s.run source = .ok (answer, t) ∧ DoneMeets p answer t
      | .ok (.error _) => ∃ e, alarm' e
      | .error refusal => s.run source = .error refusal := by
  cases hparse : parse source with
  | error refusal =>
    unfold run Session.run
    rw [hparse]
    exact ⟨rfl, rfl⟩
  | ok parsed =>
    obtain ⟨heq, hrun⟩ := evaluate_alike ht hs parsed.statements
    rw [run_eq alarm s hparse, run_eq alarm' s hparse, s.run_eq hparse, heq]
    refine ⟨rfl, ?_⟩
    by_cases hclean : parsed.diagnostics.isEmpty
    · rw [if_pos hclean, if_pos hclean]
      split at hrun
      · next h =>
        rw [h, hrun.1]
        exact ⟨rfl, hrun.2⟩
      · next h =>
        rw [h]
        exact hrun
    · rw [if_neg hclean, if_neg hclean]
      exact ⟨rfl, hs, nofun⟩

/-! ## Without an alarm -/

theorem tells_true : Tells (fun _ => True) (fun _ => false) fun _ => false where
  admits := ⟨fun _ => trivial, fun _ => trivial, fun _ => trivial, trivial, fun _ _ => trivial,
    fun _ _ => trivial, fun _ => trivial⟩
  noValue := trivial
  error _ _ := trivial
  function _ _ _ _ := trivial
  agree _ _ := rfl
  meets e _ _ := .of_forall (fun _ => trivial) e.toValue

theorem holds_true (m : Machine) : m.Holds fun _ => True :=
  fun _ _ _ b _ => .of_forall (fun _ => trivial) b.2

/-! ## With an alarm for early returns -/

/-- Not an early return. -/
def NoReturn (v : Value) : Prop := v.isReturned = false

/-- Where no early return is bound, an early return in hand comes from a return statement. -/
theorem tells_noReturn : Tells NoReturn Ending.isSignal Ending.byReturn where
  admits := ⟨fun _ => rfl, fun _ => rfl, fun _ => rfl, rfl, fun _ _ => rfl, fun _ _ => rfl,
    fun _ => rfl⟩
  noValue := rfl
  error _ _ := rfl
  function _ _ _ _ := rfl
  agree e he := by
    cases e with
    | value v => exact Value.Everywhere.here he
    | returned => rfl
  meets e he hno := by
    cases e with
    | value v => exact he
    | returned => exact absurd rfl hno

end Watched

open Watched

/-- Watching without an alarm is evaluation, in every session. -/
theorem run_without_alarm (s : Session) (source : String) :
    Watched.run (fun _ => false) s source = (s.run source).map .ok := by
  obtain ⟨-, hrun⟩ := run_alike tells_true (holds_true s.machine) source
  split at hrun
  · next h =>
    rw [h, hrun.1]
    rfl
  · obtain ⟨e, he⟩ := hrun
    cases he
  · next h =>
    rw [h, hrun]
    rfl

/-- The sessions from whose runs no early return has escaped so far. -/
inductive Session.Contained : Session → Prop
  | start (setting : Setting) : Contained (.start setting)
  | run {s t : Session} {source : String} {answer : Session.Answer} : Contained s →
      Watched.run Ending.isSignal s source = .ok (.ok (answer, t)) → Contained t

theorem Session.Contained.holds {s : Session} (hs : s.Contained) :
    s.machine.Holds NoReturn := by
  induction hs with
  | start setting => exact Heap.Everywhere.create Heap.everywhere_empty none
  | run _ hrun ih =>
    obtain ⟨heq, h⟩ := run_alike tells_noReturn ih _
    rw [← heq, hrun] at h
    exact h.2.1

/-- In a session from which no early return has escaped, one gets to a binding, an array, a
    hash, a call, a caller or the outside exactly where a return statement ends the
    expression whose value gets there.  If none does, the run is what it is without watching,
    and neither its value nor any binding holds an early return. -/
theorem run_escapes_by_return {s : Session} (hs : s.Contained) (source : String) :
    Watched.run Ending.isSignal s source = Watched.run Ending.byReturn s source ∧
      ∀ answer t, Watched.run Ending.isSignal s source = .ok (.ok (answer, t)) →
        s.run source = .ok (answer, t) ∧ DoneMeets NoReturn answer t := by
  obtain ⟨heq, hrun⟩ := run_alike tells_noReturn hs.holds source
  refine ⟨heq, fun answer t h => ?_⟩
  rw [← heq, h] at hrun
  exact hrun

theorem run_escapes_by_return_started :
    (Session.start { callLimit := 100 }).Contained ∧
      Watched.run Ending.byReturn (Session.start { callLimit := 100 })
        "return if (1) \x7b return 5 \x7d" = .ok (.error .outside) ∧
      Watched.run Ending.isSignal (Session.start { callLimit := 100 })
        "return if (1) \x7b return 5 \x7d" = .ok (.error .outside) ∧
      ∃ answer t, (Session.start { callLimit := 100 }).run "fn() \x7b return 5 \x7d()" =
        .ok (answer, t) ∧ DoneMeets NoReturn answer t :=
  ⟨.start _, rfl,
    (run_escapes_by_return (.start _) _).1.trans rfl,
    _, _, (run_escapes_by_return (.start _) _).2 _ _ rfl⟩

/-- The value of a program may be an early return. -/
theorem return_escapes :
    ∃ t, (Session.start { callLimit := 100 }).run "return if (true) \x7b return 5; \x7d;" =
      .ok (⟨.finished (.returned 0 (.integer 5)), []⟩, t) :=
  ⟨_, rfl⟩

/-- Early returns get to every site. -/
theorem sites_reached :
    let escape := Watched.run Ending.isSignal (Session.start { callLimit := 100 })
    escape "let x = if (1) \x7b return 5 \x7d" = .ok (.error (.binding "x")) ∧
      escape "[if (1) \x7b return 5 \x7d]" = .ok (.error .element) ∧
      escape "[\x7b1: if (1) \x7b return 5 \x7d\x7d]" = .ok (.error .entry) ∧
      escape "puts(if (1) \x7b return 5 \x7d)" = .ok (.error .argument) ∧
      escape "fn() \x7b return if (1) \x7b return 5 \x7d \x7d()" = .ok (.error .caller) ∧
      escape "return if (1) \x7b return 5 \x7d" = .ok (.error .outside) :=
  ⟨rfl, rfl, rfl, rfl, rfl, rfl⟩

end Monkey
