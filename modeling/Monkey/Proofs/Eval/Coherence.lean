import Monkey.Proofs.Eval.Lawful
import Monkey.Proofs.History

/-!
# Coherent machines

On a coherent machine every frame stands inside an earlier one or inside none, and the values
that are bound have the numbers of objects and frames that there are.  Evaluation makes frames and
binds names, step by step, leaves a coherent machine coherent, and gives values with numbers that
there are by then.
-/

namespace Monkey

/-- How many frames and objects there are. -/
structure Extent where
  frames : Nat
  objects : Nat

instance : Preorder Extent where
  le e e' := e.frames ≤ e'.frames ∧ e.objects ≤ e'.objects
  le_refl _ := ⟨Nat.le_refl _, Nat.le_refl _⟩
  le_trans _ _ _ h h' := ⟨Nat.le_trans h.1 h'.1, Nat.le_trans h.2 h'.2⟩

namespace Value

/-- The number of a value, and that of the frame it is closed over, are below those of an
    extent. -/
def Numbered (e : Extent) : Value → Prop
  | array id _ | hash id _ | returned id _ | error id _ | tagged id _ => id < e.objects
  | function id _ _ frame => id < e.objects ∧ frame < e.frames
  | integer _ | boolean _ | string _ | null | builtin _ | absent => True

/-- All numbers in a value are below those of an extent. -/
abbrev Within (e : Extent) (v : Value) : Prop := v.Everywhere (Numbered e)

variable {e e' : Extent} {v : Value}

theorem Numbered.mono (h : v.Numbered e) (hle : e ≤ e') : v.Numbered e' := by
  cases v with
  | array | hash | returned | error | tagged => exact Nat.lt_of_lt_of_le h hle.2
  | function => exact ⟨Nat.lt_of_lt_of_le h.1 hle.2, Nat.lt_of_lt_of_le h.2 hle.1⟩
  | integer | boolean | string | null | builtin | absent => trivial

theorem Within.mono (h : v.Within e) (hle : e ≤ e') : v.Within e' :=
  Everywhere.mono (fun _ hv => hv.mono hle) h

end Value

/-- How many frames and objects there are on a machine. -/
def Machine.extent (m : Machine) : Extent := ⟨m.heap.frames.size, m.nextObject⟩

/-- Every frame stands inside an earlier one or inside none, and all numbers in bound values are
    those of objects and frames that there are. -/
structure Machine.Coherent (m : Machine) : Prop where
  nested : m.heap.Nested
  values : m.heap.Everywhere (Value.Numbered m.extent)

namespace Machine

variable {m : Machine}

/-! ## Steps -/

theorem extent_createFrame (outer : Option FrameId) (m : Machine) :
    (Run.leaves (createFrame outer) m).extent = ⟨m.heap.frames.size + 1, m.nextObject⟩ :=
  congrArg (Extent.mk · m.nextObject) (Heap.size_create m.heap outer)

theorem extent_bind (i : FrameId) (x : String) (v : Value) (m : Machine) :
    (Run.leaves (bind i x v) m).extent = m.extent :=
  congrArg (Extent.mk · m.nextObject) (Heap.size_bind m.heap i x v)

theorem extent_le_newObject (m : Machine) : m.extent ≤ (Run.leaves newObject m).extent :=
  ⟨Nat.le_refl _, Nat.le_succ _⟩

theorem extent_le_createFrame (outer : Option FrameId) (m : Machine) :
    m.extent ≤ (Run.leaves (createFrame outer) m).extent := by
  rw [extent_createFrame]
  exact ⟨Nat.le_succ _, Nat.le_refl _⟩

namespace Coherent

theorem newObject (hm : m.Coherent) : (Run.leaves newObject m).Coherent :=
  ⟨hm.nested, Heap.Everywhere.mono (fun _ hv => hv.mono m.extent_le_newObject) hm.values⟩

theorem write (hm : m.Coherent) (line : OutputLine) : (Run.leaves (write line) m).Coherent :=
  ⟨hm.nested, hm.values⟩

theorem createFrame (hm : m.Coherent) {outer : Option FrameId}
    (houter : ∀ j ∈ outer, j < m.heap.frames.size) :
    (Run.leaves (createFrame outer) m).Coherent := by
  refine ⟨hm.nested.create houter, Heap.Everywhere.create ?_ outer⟩
  exact Heap.Everywhere.mono (fun _ hv => hv.mono (m.extent_le_createFrame outer)) hm.values

theorem bind (hm : m.Coherent) (i : FrameId) (x : String) {v : Value} (hv : v.Within m.extent) :
    (Run.leaves (bind i x v) m).Coherent := by
  refine ⟨hm.nested.bind i x v, ?_⟩
  rw [extent_bind]
  exact hm.values.bind hv

end Coherent

end Machine

/-! ## The law of coherent machines -/

/-- A comparison of a coherent machine with itself.  The world is how much there is on it; the runs
    make frames and bind names step by step. -/
def Comparison.coherent : Comparison where
  World := Extent
  order := inferInstance
  machines e m m' := m = m' ∧ m.extent = e ∧ m.Coherent
  excused _ := False
  known x m := ∃ es, Performs x m es
  known_pure _ m := ⟨[], .still _ m⟩
  known_throw _ m := ⟨[], .still _ m⟩
  known_bind h := by
    rintro ⟨es, hes⟩ ⟨es', hes'⟩
    exact ⟨es ++ es', .andThen h hes hes'⟩
  known_stopped f h := by
    rintro ⟨es, hes⟩
    exact ⟨es, .stopped f h hes⟩

/-- A step that comes to a result and leaves a coherent machine coherent. -/
theorem Comparison.coherent_step {α : Type} {e : Extent} {x : Run α}
    {post : Extent → α → α → Prop}
    (h : ∀ m : Machine, m.Coherent → e ≤ m.extent → (∃ es, Performs x m es) ∧ ∃ a m',
      x m = .ok a m' ∧ m.extent ≤ m'.extent ∧ m'.Coherent ∧ post m'.extent a a) :
    coherent.Goes e x x post := by
  rintro _ m _ hle ⟨rfl, rfl, hm⟩
  obtain ⟨hes, a, m', hx, hle', hm', ha⟩ := h m hm hle
  rw [hx]
  exact ⟨hes, .ok hle' ⟨rfl, rfl, hm'⟩ ha⟩

/-- The kinship of a machine with itself under which the objects and frames below those of an extent
    are the same. -/
abbrev Kinship.within (e : Extent) : Kinship :=
  Likeness.same.kinship (fun _ => True) (fun i j => i = j ∧ i < e.objects)
    (fun i j => i = j ∧ i < e.frames) fun h h' => by rw [h.1, h'.1]

namespace Value

theorem own_within_iff {e : Extent} {v : Value} : v.Own (.within e) ↔ v.Numbered e := by
  cases v with
  | array | hash | returned | error | tagged => exact ⟨And.right, fun h => ⟨rfl, h⟩⟩
  | function _ xs b =>
    have hcode : Likeness.same.Code (fun _ => True) xs b xs b :=
      Likeness.code_same (fun _ => trivial) xs b
    exact ⟨fun h => ⟨h.1.2, h.2.1.2⟩, fun h => ⟨⟨rfl, h.1⟩, ⟨rfl, h.2⟩, hcode⟩⟩
  | integer | boolean | string | null | builtin | absent => exact .rfl

/-- A value with numbers that there are is the same as itself, and as nothing else. -/
theorem related_within_iff {e : Extent} {v w : Value} :
    Related (.within e) v w ↔ v = w ∧ v.Within e := by
  have hreflects : Reflects (.within e) := ⟨And.left, And.left, Likeness.eq_of_code_same⟩
  have hown (v : Value) : v.Everywhere (Own (.within e)) ↔ v.Within e :=
    ⟨Everywhere.mono fun _ => own_within_iff.mp, Everywhere.mono fun _ => own_within_iff.mpr⟩
  rw [hreflects.related_iff, hown]

end Value

namespace Law

/-- The law that evaluation leaves coherent machines coherent and gives values with numbers that
    there are. -/
def coherent (setting : Setting) : Law where
  toComparison := .coherent
  setting := setting
  objects e i j := i = j ∧ i < e.objects
  frames e i j := i = j ∧ i < e.frames
  objects_iff h h' := by rw [h.1, h'.1]
  objects_mono hle h := ⟨h.1, Nat.lt_of_lt_of_le h.2 hle.2⟩
  frames_mono hle h := ⟨h.1, Nat.lt_of_lt_of_le h.2 hle.1⟩
  newObject _ := Comparison.coherent_step fun m hm _ => ⟨⟨[], .still _ m⟩, _, _, rfl,
    m.extent_le_newObject, hm.newObject, rfl, Nat.lt_succ_self _⟩
  write _ text := Comparison.coherent_step fun m hm _ => ⟨⟨[], .still _ m⟩, _, _, rfl,
    le_refl _, hm.write (.printed text), trivial⟩
  trace _ n _ := by
    rintro rfl
    refine .ite .rfl ?_ (.pure fun _ _ => trivial)
    exact Comparison.coherent_step fun m hm _ => ⟨⟨[], .still _ m⟩, _, _, rfl, le_refl _,
      hm.write (.traced _), trivial⟩
  createFrame := by
    rintro _ f _ ⟨rfl, hf⟩
    refine Comparison.coherent_step fun m hm hle => ⟨⟨_, .createFrame _ m⟩, _, _, rfl,
      m.extent_le_createFrame _, hm.createFrame fun j hj => ?_, ⟨rfl, ?_⟩, fun _ => trivial⟩
    · exact Option.mem_some_iff.mp hj ▸ Nat.lt_of_lt_of_le hf hle.1
    · have hextent := congrArg Extent.frames (m.extent_createFrame (some f))
      exact Nat.lt_of_lt_of_eq (Nat.lt_succ_self _) hextent.symm
  bind := by
    rintro _ i _ x v v' ⟨rfl, hi⟩ - hsame
    obtain ⟨rfl, hv⟩ := Value.related_within_iff.mp hsame
    refine Comparison.coherent_step fun m hm hle => ⟨⟨_, .bind x v ?_⟩, _, _, rfl,
      le_of_eq (m.extent_bind i x v).symm, hm.bind i x (hv.mono hle), trivial⟩
    exact Nat.lt_of_lt_of_le hi hle.1
  lookup := by
    rintro _ i _ x ⟨rfl, hi⟩ -
    refine Comparison.coherent_step fun m hm hle => ⟨⟨[], .still _ m⟩, _, _, rfl, le_refl _, hm, ?_⟩
    cases hv : m.heap.lookup x i with
    | none => exact .none
    | some v => exact .some (Value.related_within_iff.mpr ⟨rfl, hm.values.lookup hv⟩)

end Law

/-- The evaluation of statements in a frame that there is makes frames and binds names step by step,
    leaves a coherent machine coherent, with no fewer frames and objects, and gives a value with
    numbers that there are by then. -/
theorem evalStatements_coherent (setting : Setting) {m : Machine} (hm : m.Coherent) {i : FrameId}
    (hi : i < m.heap.frames.size) (ss : List Node) :
    let done := m.perform (evalStatements setting i ss)
    (∃ es, Performs (evalStatements setting i ss) { m with output := [] } es) ∧
      done.machine.Coherent ∧ m.extent ≤ done.machine.extent ∧
      ∀ v, done.result = .ok v → v.Within done.machine.extent := by
  have hgoes : (Law.coherent setting).Values m.extent (evalStatements setting i ss)
      (evalStatements setting i ss) :=
    Law.evalStatements (.inl rfl) (List.forall₂_same.mpr fun _ _ => rfl)
      ⟨⟨rfl, hi⟩, fun _ _ => trivial, fun _ _ => trivial⟩
  obtain ⟨hes, hend⟩ := hgoes m.extent { m with output := [] } { m with output := [] }
    (le_refl _) ⟨rfl, rfl, hm.nested, hm.values⟩
  refine ⟨hes, ?_⟩
  unfold Machine.perform
  generalize evalStatements setting i ss { m with output := [] } = r at hend
  cases hend with
  | ok hle hm' hv =>
    obtain ⟨-, rfl, hm'⟩ := hm'
    refine ⟨⟨hm'.nested, hm'.values⟩, hle, fun v hok => ?_⟩
    cases hok
    exact (Value.related_within_iff.mp hv).2
  | error reason hle hm' =>
    obtain ⟨-, rfl, hm'⟩ := hm'
    exact ⟨⟨hm'.nested, hm'.values⟩, hle, nofun⟩
  | excused _ _ h => exact h.elim

end Monkey
