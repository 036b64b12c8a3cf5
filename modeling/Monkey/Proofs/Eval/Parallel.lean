import Mathlib.Data.Nat.Basic
import Monkey.Proofs.Eval.Lawful
import Monkey.Proofs.Value.Pairing

/-!
# Evaluation on machines that are the same but for numbers

On machines that are the same under a pairing, the same tree is evaluated in step: the runs stop
alike or come to values that are the same, and leave machines that are the same.
-/

namespace Monkey

/-- A comparison of machines that are the same under a pairing.  The world is how many frames there
    are on the first. -/
def Comparison.paired (π : Pairing) : Comparison where
  World := FrameId
  order := inferInstanceAs (Preorder Nat)
  machines n m m' := m.heap.frames.size = n ∧ m.Paired π m'
  excused _ := False
  known _ _ := True
  known_pure _ _ := trivial
  known_throw _ _ := trivial
  known_bind _ _ _ := trivial
  known_stopped _ _ _ := trivial

/-- A step that comes to a result on both machines. -/
theorem Comparison.paired_step {π : Pairing} {α β : Type} {n : FrameId} {x : Run α} {y : Run β}
    {post : FrameId → α → β → Prop}
    (h : ∀ m m', n ≤ m.heap.frames.size → m.Paired π m' → ∃ a b k k', x m = .ok a k ∧
      y m' = .ok b k' ∧ m.heap.frames.size ≤ k.heap.frames.size ∧ k.Paired π k' ∧
      post k.heap.frames.size a b) : (paired π).Goes n x y post := by
  rintro _ m m' hle ⟨rfl, hm⟩
  obtain ⟨a, b, k, k', hx, hy, hsize, hk, hab⟩ := h m m' hle hm
  rw [hx, hy]
  exact ⟨trivial, .ok hsize ⟨rfl, hk⟩ hab⟩

namespace Law

/-- The law that runs on machines that are the same under a pairing go in step, where only names
    that count are used. -/
def paired (setting : Setting) (π : Pairing) : Law where
  toComparison := .paired π
  setting := setting
  uses x := π.counts x
  objects _ := π.objects
  frames := π.FramesBelow
  objects_iff := π.objects_iff
  frames_mono hle h := h.mono hle
  newObject _ := Comparison.paired_step fun m m' _ hm => by
    refine ⟨_, _, _, _, rfl, rfl, Nat.le_refl _, ⟨hm.heap, fun k => ?_, hm.output⟩, hm.next 0⟩
    have hnext := hm.next (k + 1)
    rwa [← Nat.succ_add_eq_add_succ, ← Nat.succ_add_eq_add_succ] at hnext
  write _ _ := Comparison.paired_step fun _ _ _ hm =>
    ⟨_, _, _, _, rfl, rfl, Nat.le_refl _, ⟨hm.heap, hm.next, congrArg (_ :: ·) hm.output⟩, trivial⟩
  trace _ n _ := by
    rintro rfl
    refine .ite .rfl ?_ (.pure fun _ _ => trivial)
    refine Comparison.paired_step fun _ _ _ hm => ⟨_, _, _, _, rfl, rfl, Nat.le_refl _, ?_, trivial⟩
    exact ⟨hm.heap, hm.next, congrArg (_ :: ·) hm.output⟩
  createFrame := by
    rintro _ f g hfg
    refine Comparison.paired_step fun m m' hn hm => ?_
    have hlt := Nat.lt_of_lt_of_le hfg.2 hn
    have hlt' := (hm.heap.lt_iff hfg.1).mp hlt
    have hsize := m.heap.size_create (some f)
    refine ⟨_, _, _, _, rfl, rfl, hsize ▸ Nat.le_succ _,
      ⟨hm.heap.create (.some hfg.1 hlt hlt'), hm.next, hm.output⟩, ⟨hm.heap.next 0, ?_⟩,
      fun _ => trivial⟩
    exact hsize ▸ Nat.lt_succ_self _
  bind := by
    rintro _ i j x v v' hij - hv
    refine Comparison.paired_step fun m m' hn hm => ?_
    have hsize := m.heap.size_bind i x v
    have hv' := Value.Paired.mono hv hn
    exact ⟨_, _, _, _, rfl, rfl, Nat.le_of_eq hsize.symm,
      ⟨hm.heap.bind hij.1 x hv', hm.next, hm.output⟩, trivial⟩
  lookup := by
    rintro _ i j x hij hx
    refine Comparison.paired_step fun m m' hn hm => ?_
    exact ⟨_, _, _, _, rfl, rfl, Nat.le_refl _, hm, hm.heap.lookup hx (hij.mono hn)⟩

end Law

end Monkey
