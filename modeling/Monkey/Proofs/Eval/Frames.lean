import Monkey.Proofs.Eval.Lawful
import Monkey.Proofs.Heap
import Monkey.Proofs.History

/-!
# Which frames evaluation changes

Evaluation of a tree changes no frame that there was but the one it works in, and that frame
only by the let statements of the tree outside of function bodies.  Calls change none.
-/

namespace Monkey

namespace Law

/-- The law that a run, beside itself, changes no frame of a heap but one, and that one as binding
    some names does.  What is made on the way may be changed. -/
def growing (setting : Setting) (start : Heap) (own : FrameId) (names : List String) : Law where
  toComparison := .image (fun _ => False) id fun m =>
    start.Grows own names m.heap ∧ start.frames.size ≤ m.heap.frames.size
  setting := setting
  binds _ i _ x := i < start.frames.size → i = own ∧ x ∈ names
  newObject _ := Comparison.image_step fun _ hm => ⟨_, _, _, rfl, rfl, hm, rfl⟩
  write _ _ := Comparison.image_step fun _ hm => ⟨_, _, _, rfl, rfl, hm, trivial⟩
  trace _ n _ := by
    rintro rfl
    refine .ite .rfl ?_ (.pure fun _ _ => trivial)
    exact Comparison.image_step fun _ hm => ⟨_, _, _, rfl, rfl, hm, trivial⟩
  createFrame := by
    rintro _ f _ rfl
    refine Comparison.image_step fun m hm => ⟨_, _, _, rfl, rfl, ⟨?_, ?_⟩, rfl, fun x hlt => ?_⟩
    · exact hm.1.create (some f)
    · exact Nat.le_trans hm.2 (m.heap.size_create (some f) ▸ Nat.le_succ _)
    · exact absurd hm.2 (Nat.not_le.mpr hlt)
  bind := by
    rintro _ i _ x v v' rfl hx hv
    obtain ⟨rfl, -⟩ := (Likeness.reflects_same id id).related_iff.mp hv
    refine Comparison.image_step fun m hm => ⟨_, _, _, rfl, rfl, ⟨?_, ?_⟩, trivial⟩
    · exact hm.1.bind hx v
    · exact Nat.le_trans hm.2 (Nat.le_of_eq (m.heap.size_bind i x v).symm)
  lookup := by
    rintro _ i _ x rfl -
    refine Comparison.image_step fun m hm => ⟨_, _, _, rfl, rfl, hm, ?_⟩
    exact Likeness.option_related_refl (fun _ => rfl) (fun _ => rfl) (fun _ => trivial) _

/-- What the law says of the heap that a run leaves. -/
theorem growing_leaves {setting : Setting} {own : FrameId} {names : List String} {x : Run Value}
    {m : Machine} (h : (growing setting m.heap own names).Values () x x) :
    m.heap.Grows own names (Run.leaves x m).heap := by
  rcases h.image_ends ⟨.refl own names m.heap, Nat.le_refl _⟩ with
    ⟨a, b, n, hx, -, hn, -⟩ | ⟨reason, n, hx, -, hn⟩ | ⟨reason, n, -, hexcused⟩
  · rw [Run.leaves, hx]
    exact hn.1
  · rw [Run.leaves, hx]
    exact hn.1
  · exact hexcused.elim

end Law

/-- However the evaluation of a node ends, it leaves all frames that there were as they were,
    except that its own may have new names behind those it had and new values for the names
    that the node binds.  However a call ends, it leaves all frames as they were. -/
theorem eval_frames (setting : Setting) (depth : Nat) :
    (∀ (frame : FrameId) (n : Node) (m : Machine), m.heap.Grows frame n.letNames
      (Run.leaves (Eval.eval (Eval.contextOfDepth setting depth) frame n) m).heap) ∧
    ∀ (f : Value) (args : List Value) (m : Machine), m.heap.Extends
      (Run.leaves (Eval.applyFunction setting depth f args) m).heap := by
  refine ⟨fun frame n m => ?_, fun f args m => ?_⟩
  · let L := Law.growing setting m.heap frame n.letNames
    have hadmits : L.Admits () frame frame n.names n.letNames :=
      ⟨rfl, fun _ _ => trivial, fun x hx _ => ⟨rfl, hx⟩⟩
    exact Law.growing_leaves (Law.eval (L := L) (Law.callsGo (.inl rfl)) n rfl hadmits)
  · let L := Law.growing setting m.heap m.heap.frames.size []
    have hsame (v : Value) : L.Same () v v :=
      Likeness.related_refl (fun _ => rfl) (fun _ => rfl) (fun _ => trivial) v
    have hcall := @Law.applyFunction L () depth depth (.inl rfl) f f (hsame f) args args
      (List.forall₂_same.mpr fun v _ => hsame v)
    exact (Law.growing_leaves hcall).extends

end Monkey
