import Mathlib.Data.List.Forall2
import Monkey.Proofs.Eval.Untraced
import Monkey.Proofs.Session

/-!
# Tracing

A session that traces and a session that does not come to the same, source text by source text:
the same mistakes, the same results, the same bindings.  What the one writes is what the other
writes, with the lines of the trace in between.
-/

namespace Monkey

/-! ## One source text -/

theorem untraced_append (lines lines' : List OutputLine) :
    untraced (lines ++ lines') = untraced lines ++ untraced lines' :=
  List.filter_append ..

theorem untraced_reverse (lines : List OutputLine) :
    untraced lines.reverse = (untraced lines).reverse :=
  List.filter_reverse

/-- A performance without the lines of a trace. -/
def Performance.untraced (p : Performance) : Performance :=
  { p with output := Monkey.untraced p.output }

/-- A run performs the same with a trace and without. -/
theorem Untraces.perform {x y : Run Value} (h : Untraces x y) (m : Machine) :
    m.perform y = (m.perform x).untraced ∧ ∀ line ∈ (m.perform x).output, line.Told := by
  have hrun := h { m with output := [] } nofun
  unfold Machine.perform
  have hclear : Machine.untraced { m with output := [] } = { m with output := [] } := rfl
  cases hx : x { m with output := [] } with
  | ok v m' =>
    rw [hx, hclear] at hrun
    rw [hrun.1]
    refine ⟨congrArg (fun lines => Performance.mk _ lines _) (untraced_reverse _).symm, ?_⟩
    exact fun line hline => hrun.2 line (List.mem_reverse.mp hline)
  | error reason m' =>
    rw [hx, hclear] at hrun
    rw [hrun.1]
    refine ⟨congrArg (fun lines => Performance.mk _ lines _) (untraced_reverse _).symm, ?_⟩
    exact fun line hline => hrun.2 line (List.mem_reverse.mp hline)

namespace Session

/-- The session without tracing. -/
def quiet (s : Session) : Session := { s with tracing := false }

/-- An answer without the lines of a trace. -/
def Answer.untraced (a : Answer) : Answer := { a with output := Monkey.untraced a.output }

/-- Every line of a trace of parsing tells of a rule or of a mistake. -/
theorem told_of_mem_traceLines {tracing : Bool} {p : Parse} :
    ∀ line ∈ traceLines tracing p, line.Told := by
  intro line hline
  cases tracing with
  | false => cases hline
  | true =>
    obtain ⟨text, htext, rfl⟩ := List.mem_map.mp hline
    obtain ⟨event, -, hevent⟩ := List.mem_filterMap.mp htext
    cases event with
    | began rule token =>
      cases hevent
      rw [String.append_assoc, String.append_assoc]
      exact .parsing _
    | reported diagnostic =>
      cases hevent
      unfold Diagnostic.traceLine
      rw [String.append_assoc, String.append_assoc, String.append_assoc]
      exact .mistake _
    | attempted | dropped => cases hevent

theorem untraced_traceLines (tracing : Bool) (p : Parse) :
    Monkey.untraced (traceLines tracing p) = [] := by
  cases tracing with
  | false => rfl
  | true => exact untraced_map_traced p.trace

theorem evaluate_quiet (s : Session) (ss : List Node) :
    s.quiet.evaluate ss = ((s.evaluate ss).1.untraced, (s.evaluate ss).2.quiet) ∧
      ∀ line ∈ (s.evaluate ss).1.output, line.Told := by
  obtain ⟨hperform, htold⟩ :=
    (evalStatements_untraces s.toSetting s.root ss).perform s.machine
  refine ⟨?_, htold⟩
  unfold evaluate
  exact hperform ▸ rfl

/-- A source text is run with a trace as without, but for the lines of the trace. -/
theorem run_quiet (s : Session) (source : String) :
    s.quiet.run source = (s.run source).map (fun r => (r.1.untraced, r.2.quiet)) ∧
      ∀ answer t, s.run source = .ok (answer, t) → ∀ line ∈ answer.output, line.Told := by
  cases hparse : parse source with
  | error refusal =>
    have hrun (t : Session) : t.run source = .error refusal := by
      unfold run
      rw [hparse]
      rfl
    rw [hrun, hrun]
    exact ⟨rfl, nofun⟩
  | ok p =>
    obtain ⟨hevaluate, htold⟩ := s.evaluate_quiet p.statements
    rw [s.run_eq hparse, s.quiet.run_eq hparse, hevaluate]
    by_cases hp : p.diagnostics.isEmpty
    · rw [if_pos hp, if_pos hp]
      constructor
      · have houtput := untraced_append (traceLines s.tracing p) (s.evaluate p.statements).1.output
        rw [untraced_traceLines, List.nil_append] at houtput
        exact congrArg (fun lines => Except.ok (Answer.mk _ lines, _)) houtput.symm
      · rintro _ _ ⟨⟩ line hline
        rcases List.mem_append.mp hline with hline | hline
        · exact told_of_mem_traceLines line hline
        · exact htold line hline
    · rw [if_neg hp, if_neg hp]
      constructor
      · exact congrArg (fun lines => Except.ok (Answer.mk _ lines, _))
          (untraced_traceLines s.tracing p).symm
      · rintro _ _ ⟨⟩
        exact told_of_mem_traceLines

/-! ## One source text after the other -/

/-- What comes of a source text in a session that traces and in one that does not: the same texts
    cannot be read; the outcome, which is a list of mistakes, a result, or the reason for none,
    is the same; the session has the same bindings after it, and is the same but that it does not
    trace.  The output of the one is that of the other without its trace, and this tells of rules
    of the parser, of mistakes and of nodes that are evaluated. -/
structure Turn.Transparent (traced plain : Turn) : Prop where
  refused : ∀ refusal, traced.answer = .error refusal ↔ plain.answer = .error refusal
  answered : ∀ a, traced.answer = .ok a → ∃ b, plain.answer = .ok b ∧ b.outcome = a.outcome ∧
    b.output = Monkey.untraced a.output ∧ ∀ line ∈ a.output, line.Told
  bindings : plain.session.bindings = traced.session.bindings
  session : plain.session = traced.session.quiet

theorem turn_transparent (s : Session) (source : String) :
    (s.turn source).Transparent (s.quiet.turn source) := by
  obtain ⟨hquiet, htold⟩ := s.run_quiet source
  unfold turn
  rw [hquiet]
  cases h : s.run source with
  | error refusal => exact ⟨fun _ => .rfl, nofun, rfl, rfl⟩
  | ok r =>
    refine ⟨fun _ => ⟨nofun, nofun⟩, ?_, rfl, rfl⟩
    rintro _ ⟨⟩
    exact ⟨_, rfl, rfl, rfl, htold _ _ h⟩

/-- Whatever session it starts from, with or without tracing, a run of source texts and the run
    of them without tracing agree at every text. -/
theorem runAll_quiet (s : Session) (sources : List String) :
    List.Forall₂ Turn.Transparent (s.runAll sources) (s.quiet.runAll sources) := by
  induction sources generalizing s with
  | nil => exact .nil
  | cons source rest ih =>
    have hturn := s.turn_transparent source
    refine .cons hturn ?_
    rw [hturn.session]
    exact ih _

/-- Whatever source texts are run one after the other, with whatever builtins, and however deeply
    calls may be nested, a session that traces and a session that does not agree at every text. -/
theorem runAll_transparent (setting : Setting) (sources : List String) :
    List.Forall₂ Turn.Transparent ((start { setting with tracing := true }).runAll sources)
      ((start { setting with tracing := false }).runAll sources) :=
  (start { setting with tracing := true }).runAll_quiet sources

end Session

end Monkey
