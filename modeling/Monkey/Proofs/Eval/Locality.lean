import Monkey.Proofs.Eval.Parallel
import Monkey.Proofs.Scope

/-!
# What a call can see

The frames within reach of a call are those that the function and the arguments lead to.  On two
machines that agree about these frames a call does the same, whatever other frames there are and
whatever is bound in them.
-/

namespace Monkey

/-! ## Reach -/

/-- A function that is a value, or is held in it, is closed over a frame. -/
inductive Value.Captures (i : FrameId) : Value → Prop
  | function {id : ObjectId} {xs : List Name} {b : Node} : Captures i (.function id xs b i)
  | element {id : ObjectId} {vs : List Value} {v : Value} : v ∈ vs → v.Captures i →
      Captures i (.array id vs)
  | key {id : ObjectId} {es : List (HashKey × (Value × Value))} {e : HashKey × (Value × Value)} :
      e ∈ es → e.2.1.Captures i → Captures i (.hash id es)
  | value {id : ObjectId} {es : List (HashKey × (Value × Value))}
      {e : HashKey × (Value × Value)} :
      e ∈ es → e.2.2.Captures i → Captures i (.hash id es)
  | payload {id : ObjectId} {v : Value} : v.Captures i → Captures i (.returned id v)

theorem Value.Captures.eq_frame {i j : FrameId} {id : ObjectId} {xs : List Name} {b : Node}
    (h : (Value.function id xs b j).Captures i) : i = j := by
  cases h
  rfl

/-- The frames within reach of some values: those that functions in them are closed over, the
    frames around those, and the frames that functions bound there are closed over. -/
inductive Heap.Reaches (h : Heap) (roots : List Value) : FrameId → Prop
  | root {i : FrameId} {v : Value} : v ∈ roots → v.Captures i → Reaches h roots i
  | outer {i j : FrameId} {f : Frame} : Reaches h roots i → h.frames[i]? = some f →
      f.outer = some j → Reaches h roots j
  | bound {i j : FrameId} {f : Frame} {b : String × Value} : Reaches h roots i →
      h.frames[i]? = some f → b ∈ f.bindings → b.2.Captures j → Reaches h roots j

/-- Two heaps agree on the frames within reach of some values. -/
def Heap.AgreesFrom (h : Heap) (roots : List Value) (h' : Heap) : Prop :=
  ∀ i, h.Reaches roots i → h'.frames[i]? = h.frames[i]?

/-! ## The pairing of two machines -/

/-- The frames within reach are the same frames on both machines, objects that there are on both
    are the same, and what the machines make from now on is paired in its order. -/
def Machine.sharing (m m' : Machine) (roots : List Value) : Pairing :=
  Pairing.onward
    { objects := Eq
      frames i j := i = j ∧ m.heap.Reaches roots i
      counts _ := true
      objects_iff := fun hij hij' => by rw [hij, hij']
      frames_iff := fun hij hij' => by rw [hij.1, hij'.1] } m m'

section Sharing

variable {m m' : Machine} {roots : List Value}

theorem sharing_objects {id : ObjectId} (h : id < m.nextObject) (h' : id < m'.nextObject) :
    (m.sharing m' roots).objects id id :=
  .old rfl h h'

theorem sharing_frames {i : FrameId} (hi : m.heap.Reaches roots i)
    (h : i < m.heap.frames.size) (h' : i < m'.heap.frames.size) :
    (m.sharing m' roots).FramesBelow m.heap.frames.size i i :=
  ⟨.old ⟨rfl, hi⟩ h h', h⟩

/-- A value with numbers that there are on both machines, and with nothing but frames within reach
    in it, is the same on both. -/
theorem Value.Within.shared {v : Value} (hv : v.Within m.extent) (hv' : v.Within m'.extent)
    (hreach : ∀ i, v.Captures i → m.heap.Reaches roots i) :
    Value.Paired (m.sharing m' roots) m.heap.frames.size v v := by
  refine .of_own ?_
  induction hv with
  | array hid _ ih =>
    refine .array (sharing_objects hid hv'.here) fun v hv => ?_
    exact ih v hv (hv'.elements v hv) fun i hi => hreach i (.element hv hi)
  | hash hid _ _ ihkeys ihvalues =>
    refine .hash (sharing_objects hid hv'.here) (fun e he => ?_) fun e he => ?_
    · exact ihkeys e he (hv'.keys e he) fun i hi => hreach i (.key he hi)
    · exact ihvalues e he (hv'.entries e he) fun i hi => hreach i (.value he hi)
  | returned hid _ ih =>
    refine .returned (sharing_objects hid hv'.here) (ih hv'.payload fun i hi => ?_)
    exact hreach i (.payload hi)
  | @plain v hplain hv =>
    have hv' := hv'.here
    refine .plain hplain ?_
    cases v with
    | integer | boolean | string | null | builtin | absent => trivial
    | error | tagged => exact sharing_objects hv hv'
    | function id xs b i =>
      have hframe := sharing_frames (hreach i .function) hv.2 hv'.2
      exact ⟨sharing_objects hv.1 hv'.1, hframe, Likeness.code_same (fun _ => rfl) xs b⟩
    | array | hash | returned => cases hplain

/-- Coherent machines that agree on the frames within reach are the same but for numbers. -/
theorem sharing_paired (hm : m.Coherent) (hm' : m'.Coherent)
    (hagree : m.heap.AgreesFrom roots m'.heap) :
    Machine.Paired (m.sharing m' roots) { m with output := [] } { m' with output := [] } := by
  refine ⟨⟨?_, .new⟩, .new, rfl⟩
  rintro i j ⟨hij, hi⟩
  cases hij with
  | new k => exact absurd hi (Nat.not_lt.mpr (Nat.le_add_right ..))
  | old hshared _ hi' =>
    obtain ⟨rfl, hreach⟩ := hshared
    obtain ⟨f, hf⟩ : ∃ f, m.heap.frames[i]? = some f := ⟨_, Array.getElem?_eq_getElem hi⟩
    have hf' : m'.heap.frames[i]? = some f := (hagree i hreach).trans hf
    refine ⟨f, f, hf, hf', ?_, ?_⟩
    · cases ho : f.outer with
      | none => exact .none
      | some j =>
        have hji := hm.nested i f hf j ho
        refine .some (.old ⟨rfl, hreach.outer hf ho⟩ ?_ ?_) hji hji
        · exact Nat.lt_trans hji hi
        · exact Nat.lt_trans hji hi'
    · have hall : Ordered.only (m.sharing m' roots).counts f.bindings = f.bindings :=
        List.filter_true _
      rw [hall]
      refine .of_forall_mem fun b hb => ?_
      exact Value.Within.shared (hm.values i f hf b hb) (hm'.values i f hf' b hb)
        fun j hj => hreach.bound hf hb hj

/-- Two performances have ended alike: with values that are the same, or both stopped for one
    reason. -/
inductive ResultsPaired (π : Pairing) (bound : FrameId) :
    Except Stop Value → Except Stop Value → Prop
  | ok {v w : Value} : Value.Paired π bound v w → ResultsPaired π bound (.ok v) (.ok w)
  | error (reason : Stop) : ResultsPaired π bound (.error reason) (.error reason)

/-- On coherent machines that agree on the frames within reach of a function and its arguments, a
    call writes the same and ends alike, with a value or without.  The values are the same and so
    are the machines that are left, but for the numbers of what the call has made: those follow
    on from the frames and objects that there were on each machine. -/
theorem applyFunction_local (setting : Setting) (depth : Nat) {f : Value} {args : List Value}
    (hm : m.Coherent) (hm' : m'.Coherent)
    (hwithin : ∀ v ∈ f :: args, v.Within m.extent ∧ v.Within m'.extent)
    (hagree : m.heap.AgreesFrom (f :: args) m'.heap) :
    let π := m.sharing m' (f :: args)
    let done := m.perform (Eval.applyFunction setting depth f args)
    let done' := m'.perform (Eval.applyFunction setting depth f args)
    done.output = done'.output ∧
      ResultsPaired π done.machine.heap.frames.size done.result done'.result ∧
      done.machine.Paired π done'.machine := by
  intro π done done'
  have hshared : ∀ v ∈ f :: args, Value.Paired π m.heap.frames.size v v := fun v hv =>
    (hwithin v hv).1.shared (hwithin v hv).2 fun i hi => .root hv hi
  rw [List.forall_mem_cons] at hshared
  have hgoes : (Law.paired setting π).Values m.heap.frames.size
      (Eval.applyFunction setting depth f args) (Eval.applyFunction setting depth f args) :=
    Law.applyFunction (L := .paired setting π) (w := m.heap.frames.size) (.inl rfl) hshared.1
      (List.forall₂_same.mpr hshared.2)
  have hend := (hgoes _ { m with output := [] } { m' with output := [] } (Nat.le_refl _)
    ⟨rfl, sharing_paired hm hm' hagree⟩).2
  unfold done done' Machine.perform
  generalize Eval.applyFunction setting depth f args { m with output := [] } = r,
    Eval.applyFunction setting depth f args { m' with output := [] } = r' at hend
  cases hend with
  | ok _ hpaired hv =>
    obtain ⟨rfl, hpaired⟩ := hpaired
    exact ⟨congrArg List.reverse hpaired.output, .ok hv, hpaired.heap, hpaired.next, rfl⟩
  | error reason _ hpaired =>
    obtain ⟨rfl, hpaired⟩ := hpaired
    exact ⟨congrArg List.reverse hpaired.output, .error reason, hpaired.heap, hpaired.next, rfl⟩
  | excused _ _ h => exact h.elim

end Sharing

/-- A call made where a name is bound to different values, with more frames on one machine, of a
    function that uses the name and gives a function closed over the frame of the call. -/
theorem applyFunction_local_shadowed :
    let x : Node := .identifier ⟨"x", none⟩
    let b : Node := .array [.identifier ⟨"y", none⟩, .function [] x none] none
    let f := Value.function 0 [⟨"x", none⟩] b 0
    let args : List Value := [.array 1 [f]]
    let root : Frame := ⟨[("f", f), ("y", .integer 1)], none⟩
    let m : Machine := ⟨⟨#[root, ⟨[("y", .integer 5)], some 0⟩]⟩, 2, []⟩
    let m' : Machine := ⟨⟨#[root, ⟨[("y", .array 2 [])], some 0⟩, ⟨[], some 1⟩]⟩, 3, []⟩
    let call := Eval.applyFunction { builtins := [], callLimit := 1 } 1 f args
    m.Coherent ∧ m'.Coherent ∧ m.heap.AgreesFrom (f :: args) m'.heap ∧
      (m.perform call).result = .ok (.array 3 [.integer 1, .function 2 [] x 2]) ∧
      (m'.perform call).result = .ok (.array 4 [.integer 1, .function 3 [] x 3]) ∧
      (m.perform call).machine.Paired (m.sharing m' (f :: args)) (m'.perform call).machine := by
  intro x b f args root m m' call
  have hplain (n : Int64) (e : Extent) : (Value.integer n).Within e := .plain rfl trivial
  have hf (e : Extent) (he : 0 < e.frames) (he' : 1 < e.objects) : f.Within e :=
    .plain rfl ⟨Nat.lt_of_succ_lt he', he⟩
  have hargs (e : Extent) (he : 0 < e.frames) (he' : 1 < e.objects) :
      ∀ v ∈ f :: args, v.Within e := by
    have harray : (Value.array 1 [f]).Within e :=
      .array he' (List.forall_mem_singleton.mpr (hf e he he'))
    exact List.forall_mem_cons.mpr ⟨hf e he he', List.forall_mem_singleton.mpr harray⟩
  have hroot := ((Machine.Reached.start.frame none nofun).object.object.set 0 "f" (by decide)
    (hf _ (by decide) (by decide))).set 0 "y" (by decide) (hplain 1 _)
  have hm : m.Reached _ := (hroot.frame (some 0) (by decide)).set 1 "y" (by decide) (hplain 5 _)
  have hcaller := (hroot.object.frame (some 0) (by decide)).set 1 "y" (by decide)
    (.array (Nat.lt_succ_self 2) (List.forall_mem_nil _))
  have hm' : m'.Reached _ := hcaller.frame (some 1) (by decide)
  have hcaptures (i : FrameId) (hi : f.Captures i) : i = 0 := hi.eq_frame
  -- The root is all that is within reach: nothing that is bound there leads to the other frames.
  have hreach : ∀ i, m.heap.Reaches (f :: args) i → i = 0 := by
    intro i hi
    induction hi with
    | @root i v hv hi =>
      rcases List.mem_cons.mp hv with rfl | hv
      · exact hcaptures i hi
      · cases List.mem_singleton.mp hv
        cases hi with
        | element hw hi => exact hcaptures i (List.mem_singleton.mp hw ▸ hi)
    | outer _ hframe ho ih =>
      subst ih
      cases hframe
      cases ho
    | @bound _ j _ p _ hframe hp hj ih =>
      subst ih
      cases hframe
      rcases List.mem_cons.mp hp with rfl | hp
      · exact hcaptures j hj
      · cases List.mem_singleton.mp hp
        cases hj
  have hagree : m.heap.AgreesFrom (f :: args) m'.heap := fun i hi => by rw [hreach i hi]; rfl
  have hlocal := applyFunction_local { builtins := [], callLimit := 1 } 1 hm.coherent hm'.coherent
    (fun v hv => ⟨hargs _ (by decide) (by decide) v hv, hargs _ (by decide) (by decide) v hv⟩)
    hagree
  exact ⟨hm.coherent, hm'.coherent, hagree, rfl, rfl, hlocal.2.2⟩

end Monkey
