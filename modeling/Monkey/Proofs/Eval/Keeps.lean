import Monkey.Eval.Basic
import Monkey.Proofs.Value.Everywhere
import Monkey.Runs

/-!
# What evaluation keeps

Steps of the machine keep a condition on the machine, and their results meet a condition of
their own.  Operators and builtins make no values but plain ones, those they are given, and
new arrays, hashes and errors.
-/

namespace Monkey

/-- A run keeps a condition on the machine, also when it fails, its result meets another
    condition, and it fails only for reasons of a certain kind. -/
def Ensures {ε α : Type} (inv : Machine → Prop) (fails : ε → Prop) (x : EStateM ε Machine α)
    (post : α → Prop) : Prop :=
  ∀ m, inv m → match x m with
    | .ok a m' => inv m' ∧ post a
    | .error e m' => inv m' ∧ fails e

namespace Ensures

variable {ε α β : Type} {inv : Machine → Prop} {fails : ε → Prop} {post : β → Prop}

protected theorem pure (post : β → Prop) {b : β} (h : post b) :
    Ensures inv fails (pure b) post :=
  fun _ hm => ⟨hm, h⟩

protected theorem throw {e : ε} (h : fails e) : Ensures inv fails (throw e) post :=
  fun _ hm => ⟨hm, h⟩

theorem mono {x : EStateM ε Machine β} {post' : β → Prop} (hx : Ensures inv fails x post)
    (h : ∀ b, post b → post' b) : Ensures inv fails x post' := by
  intro m hm
  have hrun := hx m hm
  split at hrun
  · exact ⟨hrun.1, h _ hrun.2⟩
  · exact hrun

theorem bind {x : EStateM ε Machine α} {f : α → EStateM ε Machine β} {mid : α → Prop}
    (hx : Ensures inv fails x mid) (hf : ∀ a, mid a → Ensures inv fails (f a) post) :
    Ensures inv fails (x >>= f) post := by
  intro m hm
  have hrun := hx m hm
  cases h : x m with
  | ok a m' =>
    rw [h] at hrun
    rw [bind_run_ok h]
    exact hf a hrun.2 m' hrun.1
  | error e m' =>
    rw [h] at hrun
    rw [bind_run_error h]
    exact hrun

theorem ite {c : Prop} [Decidable c] {x y : EStateM ε Machine β}
    (hx : c → Ensures inv fails x post) (hy : ¬ c → Ensures inv fails y post) :
    Ensures inv fails (if c then x else y) post := by
  by_cases h : c
  · rw [if_pos h]
    exact hx h
  · rw [if_neg h]
    exact hy h

end Ensures

/-- A step of the machine keeps a condition on it, for whatever reason it stops if it does,
    and its result meets another. -/
abbrev Keeps {α : Type} (inv : Machine → Prop) (x : Run α) (post : α → Prop) : Prop :=
  Ensures inv (fun _ => True) x post

/-- A step of the machine does not stop, and its result meets a condition, whatever the machine. -/
abbrev ComesTo {α : Type} (x : Run α) (post : α → Prop) : Prop :=
  Ensures (fun _ => True) (fun _ => False) x post

theorem ComesTo.traced {α : Type} {x : Run α} {post : α → Prop} {tracing : Bool} {n : Node}
    (h : ComesTo x post) : ComesTo (Eval.trace tracing n >>= fun _ => x) post := by
  have htrace : ComesTo (Eval.trace tracing n) fun _ => True :=
    .ite (fun _ _ _ => ⟨trivial, trivial⟩) fun _ => .pure _ trivial
  exact .bind htrace fun _ _ => h

/-- All values that are bound meet a condition everywhere. -/
def Machine.Holds (p : Value → Prop) (m : Machine) : Prop := m.heap.Everywhere p

/-- A value is an error or meets a condition everywhere. -/
def Value.Fine (p : Value → Prop) (v : Value) : Prop := v.isError ∨ v.Everywhere p

theorem Value.Fine.everywhere {p : Value → Prop} (hp : ∀ id message, p (.error id message))
    {v : Value} (h : v.Fine p) : v.Everywhere p := by
  rcases h with h | h
  · cases v with
    | error => exact .plain rfl (hp _ _)
    | _ => cases h
  · exact h

section Steps

variable {p : Value → Prop} {fails : Stop → Prop}

theorem newObject_keeps : Ensures (Machine.Holds p) fails Machine.newObject fun _ => True :=
  fun _ hm => ⟨hm, trivial⟩

theorem write_keeps (line : OutputLine) :
    Ensures (Machine.Holds p) fails (Machine.write line) fun _ => True :=
  fun _ hm => ⟨hm, trivial⟩

theorem createFrame_keeps (outer : Option FrameId) :
    Ensures (Machine.Holds p) fails (Machine.createFrame outer) fun _ => True :=
  fun _ hm => ⟨Heap.Everywhere.create hm outer, trivial⟩

theorem bindName_keeps {i : FrameId} {name : String} {v : Value} (hv : v.Everywhere p) :
    Ensures (Machine.Holds p) fails (Machine.bind i name v) fun _ => True :=
  fun _ hm => ⟨Heap.Everywhere.bind hm hv, trivial⟩

theorem lookup_keeps (i : FrameId) (name : String) :
    Ensures (Machine.Holds p) fails (Machine.lookup i name) fun v? => ∀ v ∈ v?, v.Everywhere p :=
  fun _ hm => ⟨hm, fun _ hv => Heap.Everywhere.lookup hm hv⟩

theorem newArray_keeps (hp : Value.Admits p) {vs : List Value}
    (hvs : ∀ v ∈ vs, v.Everywhere p) :
    Ensures (Machine.Holds p) fails (Machine.newArray vs) (Value.Everywhere p) :=
  Ensures.bind newObject_keeps fun id _ => Ensures.pure _ (.array (hp.array id vs) hvs)

theorem newHash_keeps (hp : Value.Admits p) {es : List (HashKey × (Value × Value))}
    (hkeys : ∀ e ∈ es, e.2.1.Everywhere p) (hvalues : ∀ e ∈ es, e.2.2.Everywhere p) :
    Ensures (Machine.Holds p) fails (Machine.newHash es) (Value.Everywhere p) :=
  Ensures.bind newObject_keeps fun id _ => Ensures.pure _ (.hash (hp.hash id es) hkeys hvalues)

theorem raise_keeps (problem : Problem) :
    Ensures (Machine.Holds p) fails problem.raise fun v => v.isError :=
  Ensures.bind newObject_keeps fun _ _ => Ensures.pure _ rfl

theorem raise_fine (problem : Problem) :
    Ensures (Machine.Holds p) fails problem.raise (Value.Fine p) :=
  (raise_keeps problem).mono fun _ => .inl

theorem pure_fine {v : Value} (hv : v.Everywhere p) :
    Ensures (Machine.Holds p) fails (pure v) (Value.Fine p) :=
  Ensures.pure _ (.inr hv)

theorem demand_keeps (v : Value) :
    Keeps (Machine.Holds p) (Operator.demand v) fun _ => True :=
  Ensures.ite (fun _ => Ensures.throw trivial) fun _ => Ensures.pure _ trivial

theorem demand_bind {α : Type} {v : Value} {x : Run α} {post : α → Prop}
    (h : Keeps (Machine.Holds p) x post) :
    Keeps (Machine.Holds p) (Operator.demand v >>= fun _ => x) post :=
  Ensures.bind (demand_keeps v) fun _ _ => h

theorem keyOf_keeps (surrogate? : Text.Surrogates) (v : Value) :
    Keeps (Machine.Holds p) (Operator.keyOf surrogate? v) fun _ => True := by
  unfold Operator.keyOf
  split
  · exact Ensures.pure _ trivial
  · exact Ensures.throw trivial

theorem bindAll_keeps {i : FrameId} (xs : List Name) {vs : List Value}
    (hvs : ∀ v ∈ vs, v.Everywhere p) :
    Ensures (Machine.Holds p) fails (Eval.bindAll i xs vs) fun _ => True := by
  induction xs generalizing vs with
  | nil => exact Ensures.pure _ trivial
  | cons x xs ih =>
    cases vs with
    | nil => exact Ensures.pure _ trivial
    | cons v vs =>
      rw [List.forall_mem_cons] at hvs
      exact Ensures.bind (bindName_keeps hvs.1) fun _ _ => ih hvs.2

theorem trace_keeps (tracing : Bool) (n : Node) :
    Ensures (Machine.Holds p) fails (Eval.trace tracing n) fun _ => True :=
  Ensures.ite (fun _ => write_keeps _) fun _ => Ensures.pure _ trivial

theorem valueOfName_fine (hp : Value.Admits p) (cx : EvalContext) (frame : FrameId)
    (name : String) :
    Ensures (Machine.Holds p) fails (Eval.valueOfName cx frame name) (Value.Fine p) := by
  unfold Eval.valueOfName
  apply Ensures.bind (lookup_keeps frame name)
  intro v? hv
  cases v? with
  | none =>
    cases Builtin.find? cx.builtins name with
    | none => exact raise_fine _
    | some b => exact pure_fine (.plain rfl (hp.builtin b))
  | some v =>
    cases v with
    | absent =>
      cases Builtin.find? cx.builtins name with
      | none => exact raise_fine _
      | some b => exact pure_fine (.plain rfl (hp.builtin b))
    | _ => exact pure_fine (hv _ rfl)

theorem openReturn_keeps {v : Value} (hv : v.Everywhere p) :
    Keeps (Machine.Holds p) (Eval.openReturn v) (Value.Everywhere p) := by
  unfold Eval.openReturn
  split
  · exact Ensures.pure _ hv.payload
  · exact Ensures.throw trivial
  · exact Ensures.pure _ hv

end Steps

/-! ## Operators -/

section Operators

variable {p : Value → Prop}

theorem integer_everywhere (hp : Value.Admits p) (n : Int64) : (Value.integer n).Everywhere p :=
  .plain rfl (hp.integer n)

theorem boolean_everywhere (hp : Value.Admits p) (b : Bool) : (Value.boolean b).Everywhere p :=
  .plain rfl (hp.boolean b)

theorem string_everywhere (hp : Value.Admits p) (s : String) : (Value.string s).Everywhere p :=
  .plain rfl (hp.string s)

theorem null_everywhere (hp : Value.Admits p) : Value.null.Everywhere p :=
  .plain rfl hp.null

theorem applyPrefix_fine (hp : Value.Admits p) (operator : String) (right : Value) :
    Keeps (Machine.Holds p) (Operator.applyPrefix operator right) (Value.Fine p) := by
  unfold Operator.applyPrefix
  refine Ensures.ite (fun _ => pure_fine (boolean_everywhere hp _)) fun _ => demand_bind ?_
  refine Ensures.ite (fun _ => ?_) fun _ => raise_fine _
  split
  · exact pure_fine (integer_everywhere hp _)
  · exact raise_fine _

theorem applyIntegers_fine (hp : Value.Admits p) (operator : String) (a b : Int64) :
    Ensures (Machine.Holds p) fails (Operator.applyIntegers operator a b) (Value.Fine p) := by
  unfold Operator.applyIntegers
  split
  · exact pure_fine (integer_everywhere hp _)
  · exact pure_fine (integer_everywhere hp _)
  · exact pure_fine (integer_everywhere hp _)
  · exact Ensures.ite (fun _ => raise_fine _) fun _ => pure_fine (integer_everywhere hp _)
  · exact pure_fine (boolean_everywhere hp _)
  · exact pure_fine (boolean_everywhere hp _)
  · exact pure_fine (boolean_everywhere hp _)
  · exact pure_fine (boolean_everywhere hp _)
  · exact raise_fine _

theorem applyBinary_fine (hp : Value.Admits p) (operator : String) (left right : Value) :
    Keeps (Machine.Holds p) (Operator.applyBinary operator left right) (Value.Fine p) := by
  unfold Operator.applyBinary
  refine demand_bind (demand_bind (Ensures.ite (fun _ => raise_fine _) fun _ => ?_))
  split
  · exact applyIntegers_fine hp operator _ _
  · refine Ensures.ite (fun _ => pure_fine (string_everywhere hp _)) fun _ => raise_fine _
  · apply Ensures.ite (fun _ => pure_fine (boolean_everywhere hp _))
    intro _
    exact Ensures.ite (fun _ => pure_fine (boolean_everywhere hp _)) fun _ => raise_fine _

theorem getD_everywhere (hnull : Value.null.Everywhere p) {v? : Option Value}
    (h : ∀ v ∈ v?, v.Everywhere p) : (v?.getD .null).Everywhere p := by
  cases v? with
  | none => exact hnull
  | some v => exact h v rfl

theorem elementAt_everywhere (hnull : Value.null.Everywhere p) {vs : List Value}
    (h : ∀ v ∈ vs, v.Everywhere p) (i : Int64) : (Operator.elementAt vs i).Everywhere p := by
  unfold Operator.elementAt
  split
  · exact hnull
  · exact getD_everywhere hnull fun v hv => h v (List.mem_of_getElem? hv)

theorem applyIndex_fine (hp : Value.Admits p) (surrogate? : Text.Surrogates) {left : Value}
    (hleft : left.Everywhere p) (right : Value) :
    Keeps (Machine.Holds p) (Operator.applyIndex surrogate? left right) (Value.Fine p) := by
  unfold Operator.applyIndex
  refine demand_bind ?_
  split
  · refine demand_bind ?_
    split
    · exact pure_fine (elementAt_everywhere (null_everywhere hp) hleft.elements _)
    · exact raise_fine _
  · refine demand_bind (Ensures.ite (fun _ => ?_) fun _ => raise_fine _)
    exact Ensures.bind (keyOf_keeps surrogate? right) fun key _ =>
      pure_fine (getD_everywhere (null_everywhere hp) (hleft.valueOfKey key))
  · exact raise_fine _

end Operators

/-! ## Builtins -/

section Builtins

variable {p : Value → Prop}

theorem printAll_fine (hp : Value.Admits p) (function : String) (args : List Value) :
    Keeps (Machine.Holds p) (Builtin.printAll function args) (Value.Fine p) := by
  induction args with
  | nil => exact pure_fine (null_everywhere hp)
  | cons v rest ih =>
    rw [Builtin.printAll]
    refine Ensures.ite (fun _ => ?_) fun _ => raise_fine _
    exact Ensures.bind (write_keeps _) fun _ _ => ih

theorem lengthOf_fine (hp : Value.Admits p) (function : String) (args : List Value) :
    Keeps (Machine.Holds p) (Builtin.lengthOf function args) (Value.Fine p) := by
  unfold Builtin.lengthOf
  split
  · exact raise_fine _
  · exact pure_fine (integer_everywhere hp _)
  · exact pure_fine (integer_everywhere hp _)
  · exact raise_fine _
  · exact raise_fine _
  · exact pure_fine (null_everywhere hp)

theorem arrayArgument_everywhere {function : String} {args : List Value}
    (hargs : ∀ v ∈ args, v.Everywhere p) {wants : List (Option String)} {elements : List Value}
    (h : Builtin.arrayArgument function args wants = .ok elements) :
    ∀ v ∈ elements, v.Everywhere p := by
  unfold Builtin.arrayArgument at h
  split at h <;> cases h
  · exact (hargs _ (List.mem_cons_self ..)).elements
  · exact List.forall_mem_nil _

theorem apply_fine (hp : Value.Admits p) (b : Builtin) {args : List Value}
    (hargs : ∀ v ∈ args, v.Everywhere p) :
    Keeps (Machine.Holds p) (b.apply args) (Value.Fine p) := by
  have hnew {vs : List Value} (hvs : ∀ v ∈ vs, v.Everywhere p) :
      Keeps (Machine.Holds p) (Machine.newArray vs) (Value.Fine p) :=
    (newArray_keeps hp hvs).mono fun _ => .inr
  unfold Builtin.apply
  split
  · exact printAll_fine hp _ _
  · exact lengthOf_fine hp _ _
  · split
    · exact raise_fine _
    · next elements h =>
      have helements := arrayArgument_everywhere hargs h
      refine pure_fine (getD_everywhere (null_everywhere hp) fun v hv => ?_)
      exact helements v (List.mem_of_mem_head? hv)
  · split
    · exact raise_fine _
    · next elements h =>
      have helements := arrayArgument_everywhere hargs h
      refine pure_fine (getD_everywhere (null_everywhere hp) fun v hv => ?_)
      exact helements v (List.mem_of_mem_getLast? hv)
  · split
    · exact raise_fine _
    · exact pure_fine (null_everywhere hp)
    · next v rest h =>
      have helements := arrayArgument_everywhere hargs h
      exact hnew (List.forall_mem_cons.mp helements).2
  · split
    · exact raise_fine _
    · next elements h =>
      have helements := arrayArgument_everywhere hargs h
      refine hnew (List.forall_mem_append.mpr ⟨helements, fun v hv => ?_⟩)
      exact hargs v (List.mem_of_mem_drop hv)
  · exact raise_fine _
  · exact raise_fine _
  · exact hnew hargs

end Builtins

end Monkey
