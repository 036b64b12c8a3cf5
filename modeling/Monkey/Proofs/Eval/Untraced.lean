import Monkey.Proofs.Eval.Lawful

/-!
# Evaluation without its trace

Evaluation that traces does what evaluation does that does not, and writes the same lines in the
same order.  The lines of the trace that it writes in between tell which nodes are evaluated, and
nothing depends on them.
-/

namespace Monkey

/-! ## Lines -/

/-- Whether a line is printed by the program. -/
def OutputLine.isPrinted : OutputLine → Bool
  | printed _ => true
  | traced _ => false

/-- Output without the lines of a trace. -/
def untraced (output : List OutputLine) : List OutputLine :=
  output.filter OutputLine.isPrinted

/-- The lines there are: what the program prints, and the three kinds of trace events. -/
inductive OutputLine.Told : OutputLine → Prop
  | printed (text : String) : Told (.printed text)
  | parsing (rest : String) : Told (.traced ("Parsing: " ++ rest))
  | mistake (rest : String) : Told (.traced ("Parse error: " ++ rest))
  | evaluating (rest : String) : Told (.traced ("Evaluating: " ++ rest))

theorem untraced_map_traced (lines : List String) : untraced (lines.map .traced) = [] := by
  unfold untraced
  rw [List.filter_eq_nil_iff]
  intro line hline
  obtain ⟨text, -, rfl⟩ := List.mem_map.mp hline
  nofun

/-- A machine on which no line of a trace has been written. -/
def Machine.untraced (m : Machine) : Machine := { m with output := Monkey.untraced m.output }

/-- Every line written on a machine is of a kind that there is. -/
def Machine.Told (m : Machine) : Prop := ∀ line ∈ m.output, line.Told

/-! ## The law of traces -/

/-- From a machine without the lines of a trace, `y` does what `x` does from the machine itself;
    `x` writes lines of known kinds. -/
def Untraces {α : Type} (x y : Run α) : Prop :=
  ∀ m : Machine, m.Told →
    match x m with
    | .ok a m' => y m.untraced = .ok a m'.untraced ∧ m'.Told
    | .error reason m' => y m.untraced = .error reason m'.untraced ∧ m'.Told

namespace Law

/-- The law that evaluation without a trace leaves the machine that evaluation with one leaves, but
    for the lines of the trace. -/
def untraced (setting : Setting) : Law where
  toComparison := .image (fun _ => False) Machine.untraced Machine.Told
  setting := setting
  tracing' := false
  newObject _ := Comparison.image_step fun _ hm => ⟨_, _, _, rfl, rfl, hm, rfl⟩
  write _ text := Comparison.image_step fun _ hm =>
    ⟨_, _, _, rfl, rfl, List.forall_mem_cons.mpr ⟨.printed text, hm⟩, trivial⟩
  trace _ n _ := by
    rintro rfl
    have hevent : (OutputLine.traced ("Evaluating: " ++ n.kindName ++ " " ++ n.text)).Told := by
      rw [String.append_assoc, String.append_assoc]
      exact .evaluating _
    unfold Eval.trace
    cases setting.tracing with
    | false => exact .pure fun _ _ => trivial
    | true => exact Comparison.image_step fun m hm =>
        ⟨_, _, _, rfl, rfl, List.forall_mem_cons.mpr ⟨hevent, hm⟩, trivial⟩
  createFrame := by
    rintro _ f _ rfl
    exact Comparison.image_step fun _ hm => ⟨_, _, _, rfl, rfl, hm, rfl, fun _ => trivial⟩
  bind := by
    rintro _ i _ x v v' rfl - hv
    obtain ⟨rfl, -⟩ := (Likeness.reflects_same id id).related_iff.mp hv
    exact Comparison.image_step fun _ hm => ⟨_, _, _, rfl, rfl, hm, trivial⟩
  lookup := by
    rintro _ i _ x rfl -
    refine Comparison.image_step fun _ hm => ⟨_, _, _, rfl, rfl, hm, ?_⟩
    exact Likeness.option_related_refl (fun _ => rfl) (fun _ => rfl) (fun _ => trivial) _

theorem untraces {setting : Setting} {x y : Run Value} (h : (untraced setting).Values () x y) :
    Untraces x y := by
  intro m hm
  rcases h.image_ends hm with ⟨v, v', n, hx, hy, hn, hv⟩ | ⟨reason, n, hx, hy, hn⟩ |
    ⟨reason, n, -, hexcused⟩
  · obtain ⟨rfl, -⟩ := (Likeness.reflects_same id id).related_iff.mp hv
    rw [hx]
    exact ⟨hy, hn⟩
  · rw [hx]
    exact ⟨hy, hn⟩
  · exact hexcused.elim

end Law

/-- Statements are evaluated with a trace as without, but for the lines of the trace. -/
theorem evalStatements_untraces (setting : Setting) (frame : FrameId) (ss : List Node) :
    Untraces (evalStatements setting frame ss)
      (evalStatements { setting with tracing := false } frame ss) := by
  have hss : List.Forall₂ Eq ss ss := List.forall₂_same.mpr fun _ _ => rfl
  exact Law.untraces (Law.evalStatements (L := .untraced setting) (.inl rfl) hss
    ⟨rfl, fun _ _ => trivial, fun _ _ => trivial⟩)

end Monkey
