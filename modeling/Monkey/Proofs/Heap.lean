import Monkey.Heap

/-!
# How frames change

Two relations between an earlier and a later heap.  A heap extends another if all frames of
the other are as they were.  A heap that grows at one frame may besides have new bindings in
that frame, behind those it had, and other values for some of its names.
-/

namespace Monkey

/-- A frame in the same place with the names it had, in their order, and perhaps more behind
    them.  Names that are not listed have the value they had, or none as before. -/
structure Frame.Grows (names : List String) (f f' : Frame) : Prop where
  outer : f'.outer = f.outer
  keys : f.bindings.keys <+: f'.bindings.keys
  value : ∀ x, x ∉ names → f'.bindings.find? x = f.bindings.find? x

namespace Frame.Grows

variable {names : List String} {f g k : Frame}

theorem refl (names : List String) (f : Frame) : f.Grows names f :=
  ⟨rfl, List.prefix_rfl, fun _ _ => rfl⟩

theorem trans (hfg : f.Grows names g) (hgk : g.Grows names k) : f.Grows names k :=
  ⟨hgk.outer.trans hfg.outer, hfg.keys.trans hgk.keys,
    fun x hx => (hgk.value x hx).trans (hfg.value x hx)⟩

theorem insert {x : String} (hx : x ∈ names) (f : Frame) (v : Value) :
    f.Grows names { f with bindings := f.bindings.insert x v } := by
  refine ⟨rfl, ?_, fun y hy => ?_⟩
  · rw [Ordered.keys_insert]
    split
    · exact List.prefix_rfl
    · exact List.prefix_append _ _
  · have hne : y ≠ x := fun h => hy (h ▸ hx)
    exact Ordered.find?_insert_of_ne hne v f.bindings

end Frame.Grows

namespace Heap

/-- Every frame there was is as it was. -/
def Extends (h h' : Heap) : Prop :=
  ∀ (i : FrameId) (f : Frame), h.frames[i]? = some f → h'.frames[i]? = some f

/-- Every frame there was is as it was, except that one frame may have grown, with new values
    for some names. -/
structure Grows (frame : FrameId) (names : List String) (h h' : Heap) : Prop where
  others : ∀ i, i ≠ frame → ∀ f, h.frames[i]? = some f → h'.frames[i]? = some f
  own : ∀ f, h.frames[frame]? = some f →
    ∃ f', h'.frames[frame]? = some f' ∧ f.Grows names f'

variable {frame : FrameId} {names : List String} {h h' : Heap}

theorem Grows.refl (frame : FrameId) (names : List String) (h : Heap) : h.Grows frame names h :=
  ⟨fun _ _ _ hf => hf, fun f hf => ⟨f, hf, .refl names f⟩⟩

/-- A frame made anew is none of those that there were. -/
theorem Grows.create (hgrows : h.Grows frame names h') (outer : Option FrameId) :
    h.Grows frame names (h'.create outer).1 := by
  have hkeep {i : FrameId} {f : Frame} (hf : h'.frames[i]? = some f) :
      (h'.create outer).1.frames[i]? = some f := by
    have hi : i < h'.frames.size := (Array.getElem?_eq_some_iff.mp hf).1
    rw [Heap.create, Array.getElem?_push, if_neg (Nat.ne_of_lt hi), hf]
  refine ⟨fun i hi f hf => hkeep (hgrows.others i hi f hf), fun f hf => ?_⟩
  obtain ⟨f', hf', hle⟩ := hgrows.own f hf
  exact ⟨f', hkeep hf', hle⟩

/-- A name may be bound in any frame made since, and if it is listed in the one that may grow. -/
theorem Grows.bind (hgrows : h.Grows frame names h') {i : FrameId} {x : String}
    (hx : i < h.frames.size → i = frame ∧ x ∈ names) (v : Value) :
    h.Grows frame names (h'.bind i x v) := by
  refine ⟨fun j hj f hf => ?_, fun f hf => ?_⟩
  · have hlt : j < h.frames.size := (Array.getElem?_eq_some_iff.mp hf).1
    have hij : i ≠ j := fun hij => hj (hij ▸ (hx (hij ▸ hlt)).1)
    rw [Heap.bind, Array.getElem?_modify, if_neg hij, hgrows.others j hj f hf]
  · have hlt : frame < h.frames.size := (Array.getElem?_eq_some_iff.mp hf).1
    obtain ⟨f', hf', hle⟩ := hgrows.own f hf
    rw [Heap.bind, Array.getElem?_modify, hf']
    by_cases hi : i = frame
    · rw [if_pos hi]
      exact ⟨_, rfl, hle.trans (.insert (hx (hi ▸ hlt)).2 f' v)⟩
    · rw [if_neg hi]
      exact ⟨f', rfl, hle⟩

/-- What grows at a frame that there is not extends. -/
theorem Grows.extends (hgrows : h.Grows h.frames.size names h') : h.Extends h' := by
  intro i f hf
  have hi : i < h.frames.size := (Array.getElem?_eq_some_iff.mp hf).1
  exact hgrows.others i (Nat.ne_of_lt hi) f hf

end Heap

end Monkey
