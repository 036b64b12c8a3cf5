import Monkey.Proofs.Eval.Coherence
import Monkey.Proofs.Session

/-!
# Scopes

Frames are made, names are bound and programs are evaluated in any order.  On all machines that
this leads to, every frame stands inside one made before it or inside none, functions are closed
over frames that there are, and a name has from a frame outward the value it was given last in the
nearest frame that was ever given one for it.
-/

namespace Monkey

/-! ## The machines that are reached -/

theorem perform_machine (m : Machine) (x : Run Value) :
    (m.perform x).machine = { Run.leaves x { m with output := [] } with output := [] } := by
  unfold Machine.perform Run.leaves
  cases x { m with output := [] } <;> rfl

/-- The machines that are reached from an empty one, with all that was made and bound on the
    way: by making a frame inside another or inside none, by making an object, by binding a name
    in a frame to a value there can be, and by evaluating a program in a frame. -/
inductive Machine.Reached : Machine → History → Prop
  | start : Reached {} []
  | frame {m : Machine} {es : History} (outer : Option FrameId) : m.Reached es →
      (∀ j ∈ outer, j < m.heap.frames.size) →
      (Run.leaves (Machine.createFrame outer) m).Reached (es ++ [.made outer])
  | object {m : Machine} {es : History} : m.Reached es →
      (Run.leaves Machine.newObject m).Reached es
  | set {m : Machine} {es : History} (i : FrameId) (x : String) {v : Value} : m.Reached es →
      i < m.heap.frames.size → v.Within m.extent →
      (Run.leaves (Machine.bind i x v) m).Reached (es ++ [.bound i x v])
  | program {m : Machine} {es es' : History} (setting : Setting) {i : FrameId} (ss : List Node) :
      m.Reached es → i < m.heap.frames.size →
      Performs (evalStatements setting i ss) { m with output := [] } es' →
      (m.perform (evalStatements setting i ss)).machine.Reached (es ++ es')

namespace Machine

theorem coherent_start : Machine.Coherent {} :=
  ⟨Heap.nested_empty, Heap.everywhere_empty⟩

variable {m : Machine} {es : History}

theorem Reached.coherent (hm : m.Reached es) : m.Coherent := by
  induction hm with
  | start => exact coherent_start
  | frame outer _ houter ih => exact ih.createFrame houter
  | object _ ih => exact ih.newObject
  | set i x _ _ hv ih => exact ih.bind i x hv
  | program setting ss _ hi _ ih => exact (evalStatements_coherent setting ih hi ss).2.1

theorem Reached.records (hm : m.Reached es) : m.heap.Records es := by
  induction hm with
  | start => exact .empty
  | frame outer _ _ ih => exact ih.create outer
  | object _ ih => exact ih
  | set i x _ hi _ ih => exact ih.bind hi x _
  | program setting ss _ _ hes ih =>
    rw [perform_machine]
    exact hes.records ih

/-- On every machine that is reached, frames have been made in the order of their numbers, each
    inside an earlier one or inside none, and functions are closed over frames that there are.
    From every frame there is, the search for a name ends by itself: it finds the value that the
    name was given last in the nearest frame outward that was ever given one for it, and nothing
    if no frame outward was.  What it finds, be it the absent value, was given somewhere outward.
    An evaluation in such a frame makes frames and binds names step by step and leads to a machine
    that is reached; its value, if it has one, is closed over frames that there are then. -/
theorem Reached.lookup_last (hm : m.Reached es) :
    m.Coherent ∧ m.heap.frames.toList.map Frame.outer = es.outers ∧
      (∀ i < m.heap.frames.size, ∀ x : String,
        (∀ steps, i < steps → m.heap.lookupWithin x steps i = m.heap.lookup x i) ∧
        (∀ r, m.heap.lookup x i = r ↔ es.Finds x i r) ∧
        (m.heap.lookup x i = none ↔ ∀ j, es.Outward i j → es.values j x = []) ∧
        ∀ v, m.heap.lookup x i = some v → ∃ j, es.Outward i j ∧ v ∈ es.values j x) ∧
      ∀ setting : Setting, ∀ i < m.heap.frames.size, ∀ ss : List Node,
        (∃ es', Performs (evalStatements setting i ss) { m with output := [] } es' ∧
          (m.perform (evalStatements setting i ss)).machine.Reached (es ++ es')) ∧
        ∀ v, (m.perform (evalStatements setting i ss)).result = .ok v →
          v.Within (m.perform (evalStatements setting i ss)).machine.extent := by
  have hcoherent := hm.coherent
  have hrecords := hm.records
  refine ⟨hcoherent, hrecords.outers, ?_, ?_⟩
  · intro i hi x
    have hlookup : es.Finds x i (m.heap.lookup x i) :=
      hrecords.lookupWithin hcoherent.nested x hi (Nat.lt_succ_self i)
    refine ⟨fun steps hsteps => ?_, fun r => ?_, hlookup.eq_none_iff, fun v => hlookup.exists_mem⟩
    · exact (hrecords.lookupWithin hcoherent.nested x hi hsteps).unique hlookup
    · exact hrecords.lookup_eq_iff hcoherent.nested hi x r
  · intro setting i hi ss
    obtain ⟨⟨es', hes'⟩, -, -, hresult⟩ := evalStatements_coherent setting hcoherent hi ss
    exact ⟨⟨es', hes', hm.program setting ss hi hes'⟩, hresult⟩

/-- A let statement of an integer binds its name and does nothing else. -/
theorem performs_let (limit : Nat) {i : FrameId} {m : Machine} (hi : i < m.heap.frames.size)
    (x : Name) (n : Int) :
    Performs (evalStatements { callLimit := limit } i [.letBinding x (.integer n none) none]) m
      [.bound i x.value (.ofInt n)] := by
  let cx := Eval.contextOfDepth { callLimit := limit } limit
  have hvalue : Eval.eval cx i (.integer n none) = pure (.ofInt n) := by
    rw [Eval.eval]
    rfl
  have hlet : Eval.eval cx i (.letBinding x (.integer n none) none) =
      Machine.bind i x.value (.ofInt n) >>= fun _ => pure .absent := by
    rw [Eval.eval, hvalue]
    rfl
  have hbind : Performs (Machine.bind i x.value (.ofInt n) >>= fun _ => pure Value.absent) m
      ([.bound i x.value (.ofInt n)] ++ []) :=
    .andThen (a := ()) rfl (.bind x.value _ hi) (.still _ _)
  show Performs (Eval.evalProgram cx i .absent [_]) m
    (([.bound i x.value (.ofInt n)] ++ []) ++ [])
  rw [Eval.evalProgram, hlet]
  exact .andThen (a := Value.absent) rfl hbind (.still (pure Value.absent) _)

/-- A function closed over the inner of two frames is bound in the outer one, a name is bound
    there twice, and a program binds another in the inner frame. -/
theorem Reached.lookup_last_cycle :
    let f := Value.function 0 [] (.block [] none) 1
    let es : History := [.made none, .made (some 0), .bound 0 "f" f, .bound 0 "x" (.integer 1),
      .bound 0 "x" (.integer 2), .bound 1 "y" (.ofInt 5)]
    ∃ m : Machine, m.Reached es ∧ m.Coherent ∧ m.heap.lookup "f" 1 = some f ∧
      m.heap.lookup "x" 1 = some (.integer 2) ∧ m.heap.lookup "y" 0 = none := by
  intro f es
  have hf : f.Within ⟨2, 1⟩ := .plain rfl ⟨Nat.lt_succ_self 0, Nat.lt_succ_self 1⟩
  have hone (e : Extent) : (Value.integer 1).Within e := .plain rfl trivial
  have htwo (e : Extent) : (Value.integer 2).Within e := .plain rfl trivial
  have hframes := (Reached.start.frame none nofun).frame (some 0) (by decide)
  have hbound := (hframes.object.set 0 "f" (by decide) hf).set 0 "x" (by decide) (hone _)
  have hagain := hbound.set 0 "x" (by decide) (htwo _)
  have hm := hagain.program { callLimit := 0 } _ (by decide)
    (performs_let (i := 1) 0 (by decide) ⟨"y", none⟩ 5)
  obtain ⟨hcoherent, -, hlookup, -⟩ := hm.lookup_last
  refine ⟨_, hm, hcoherent, ?_, ?_, ?_⟩
  · exact ((hlookup 1 (by decide) "f").2.1 _).mpr (.outward rfl rfl (.here rfl))
  · exact ((hlookup 1 (by decide) "x").2.1 _).mpr (.outward rfl rfl (.here rfl))
  · exact ((hlookup 0 (by decide) "y").2.1 _).mpr (.nowhere rfl rfl)

end Machine

/-- The machines of sessions are reached, and their roots are frames that there are. -/
theorem Session.Visited.reached {s : Session} (hs : s.Visited) :
    (∃ es, s.machine.Reached es) ∧ s.root < s.machine.heap.frames.size := by
  induction hs with
  | start setting =>
    exact ⟨⟨_, Machine.Reached.start.frame none nofun⟩, Nat.lt_succ_self 0⟩
  | @evaluate s source p _ _ ih =>
    obtain ⟨⟨es, hm⟩, hroot⟩ := ih
    obtain ⟨⟨es', hes'⟩, -, hle, -⟩ :=
      evalStatements_coherent s.toSetting hm.coherent hroot p.statements
    exact ⟨⟨_, hm.program s.toSetting p.statements hroot hes'⟩, Nat.lt_of_lt_of_le hroot hle.1⟩

end Monkey
