import Monkey.Proofs.Eval.Lawful
import Monkey.Proofs.Session

/-!
# How deeply calls may be nested

A program that ends without reaching the limit on nested calls does the same under every greater
limit.  So nothing that is shown of it under some limit that is large enough depends on which one
it is.
-/

namespace Monkey

namespace Law

/-- The law that a run does the same where calls may be nested more deeply, unless it stops because
    they are nested too deeply. -/
def deeper (setting : Setting) (limit : Nat) : Law where
  toComparison := .image (· = .callDepth) id fun _ => True
  setting := setting
  callLimit' := limit
  newObject _ := Comparison.image_step fun _ hm => ⟨_, _, _, rfl, rfl, hm, rfl⟩
  write _ _ := Comparison.image_step fun _ hm => ⟨_, _, _, rfl, rfl, hm, trivial⟩
  trace _ n _ := by
    rintro rfl
    refine .ite .rfl ?_ (.pure fun _ _ => trivial)
    exact Comparison.image_step fun _ hm => ⟨_, _, _, rfl, rfl, hm, trivial⟩
  createFrame := by
    rintro _ f _ rfl
    exact Comparison.image_step fun _ hm => ⟨_, _, _, rfl, rfl, hm, rfl, fun _ => trivial⟩
  bind := by
    rintro _ i _ x v v' rfl - hv
    obtain ⟨rfl, -⟩ := (Likeness.reflects_same id id).related_iff.mp hv
    exact Comparison.image_step fun _ hm => ⟨_, _, _, rfl, rfl, hm, trivial⟩
  lookup := by
    rintro _ i _ x rfl -
    refine Comparison.image_step fun _ hm => ⟨_, _, _, rfl, rfl, hm, ?_⟩
    exact Likeness.option_related_refl (fun _ => rfl) (fun _ => rfl) (fun _ => trivial) _

end Law

/-- Statements whose evaluation does not stop at the limit are evaluated alike under a greater
    one. -/
theorem evalStatements_of_le {setting : Setting} {limit : Nat} (hle : setting.callLimit ≤ limit)
    (frame : FrameId) (ss : List Node) {m : Machine}
    (hstop : ∀ m', evalStatements setting frame ss m ≠ .error .callDepth m') :
    evalStatements { setting with callLimit := limit } frame ss m =
      evalStatements setting frame ss m := by
  have hss : List.Forall₂ Eq ss ss := List.forall₂_same.mpr fun _ _ => rfl
  have hgoes := Law.evalStatements (L := .deeper setting limit) (w := ()) (i := frame) (j := frame)
    (.inr ⟨hle, rfl⟩) hss ⟨rfl, fun _ _ => trivial, fun _ _ => trivial⟩
  rcases hgoes.image_ends (m := m) trivial with ⟨v, v', n, hx, hy, -, hv⟩ |
    ⟨reason, n, hx, hy, -⟩ | ⟨reason, n, hx, rfl⟩
  · obtain ⟨rfl, -⟩ := (Likeness.reflects_same id id).related_iff.mp hv
    exact hy.trans hx.symm
  · exact hy.trans hx.symm
  · exact absurd hx (hstop n)

namespace Session

/-- A session in which calls may be nested to another depth. -/
def withCallLimit (s : Session) (limit : Nat) : Session := { s with callLimit := limit }

theorem evaluate_withCallLimit {s : Session} {limit : Nat} (hle : s.callLimit ≤ limit)
    {ss : List Node} (hstop : (s.evaluate ss).1.outcome ≠ .stopped .callDepth) :
    (s.withCallLimit limit).evaluate ss =
      ((s.evaluate ss).1, (s.evaluate ss).2.withCallLimit limit) := by
  have heval : evalStatements { s.toSetting with callLimit := limit } s.root ss
      { s.machine with output := [] } =
        evalStatements s.toSetting s.root ss { s.machine with output := [] } := by
    refine evalStatements_of_le hle s.root ss fun m' hm' => hstop ?_
    unfold evaluate Machine.perform
    rw [hm']
  have hperform : s.machine.perform (evalStatements { s.toSetting with callLimit := limit }
      s.root ss) = s.machine.perform (evalStatements s.toSetting s.root ss) := perform_congr heval
  unfold evaluate
  show (_, _) = _
  rw [show (s.withCallLimit limit).machine.perform (evalStatements
    (s.withCallLimit limit).toSetting (s.withCallLimit limit).root ss) = _ from hperform]
  rfl

/-- A source text that does not stop at the limit on nested calls has the same answer and leaves
    the same session under every greater limit. -/
theorem run_withCallLimit {s t : Session} {limit : Nat} (hle : s.callLimit ≤ limit)
    {source : String} {answer : Answer} (hrun : s.run source = .ok (answer, t))
    (hstop : answer.outcome ≠ .stopped .callDepth) :
    (s.withCallLimit limit).run source = .ok (answer, t.withCallLimit limit) := by
  cases hparse : parse source with
  | error refusal =>
    unfold run at hrun
    rw [hparse] at hrun
    cases hrun
  | ok p =>
    rw [s.run_eq hparse] at hrun
    rw [(s.withCallLimit limit).run_eq hparse]
    by_cases hp : p.diagnostics.isEmpty
    · rw [if_pos hp] at hrun ⊢
      cases hrun
      rw [evaluate_withCallLimit hle hstop]
      rfl
    · rw [if_neg hp] at hrun ⊢
      cases hrun
      rfl

end Session

end Monkey
