import Monkey.Proofs.Eval.Keeps
import Monkey.Proofs.Eval.Watched

/-!
# Watched evaluation and evaluation

Alarms that agree on what evaluation comes to break watched evaluation off at the same
steps; if they do not, watched evaluation is evaluation.  What agreement needs is a condition
on values that is kept by evaluation, and met by all that gets to a site without an alarm.
-/

namespace Monkey

namespace Watched

open Halt (step)

/-- Only return statements make values of an ending that fail a condition. -/
def EndingMeets (p : Value → Prop) : Ending → Prop
  | .value v => v.Everywhere p
  | .returned _ operand => EndingMeets p operand

/-- A condition on values under which two alarms agree, and values that set off neither of
    them meet it. -/
structure Tells (p : Value → Prop) (alarm alarm' : Ending → Bool) : Prop where
  admits : Value.Admits p
  noValue : p .absent
  error : ∀ id message, p (.error id message)
  function : ∀ id xs b frame, p (.function id xs b frame)
  agree : ∀ e, EndingMeets p e → alarm e = alarm' e
  meets : ∀ e, EndingMeets p e → ¬ alarm' e → e.toValue.Everywhere p

variable {p : Value → Prop} {alarm alarm' : Ending → Bool}

namespace Tells

theorem absent (ht : Tells p alarm alarm') : Value.absent.Everywhere p :=
  .plain rfl ht.noValue

theorem of_fine (ht : Tells p alarm alarm') {v : Value} (h : v.Fine p) : v.Everywhere p :=
  h.everywhere ht.error

theorem of_isError (ht : Tells p alarm alarm') {v : Value} (h : v.isError) :
    v.Everywhere p :=
  ht.of_fine (.inl h)

theorem of_isHashable (ht : Tells p alarm alarm') {v : Value} (h : v.isHashable) :
    v.Everywhere p := by
  cases v with
  | integer n => exact integer_everywhere ht.admits n
  | boolean b => exact boolean_everywhere ht.admits b
  | string s => exact string_everywhere ht.admits s
  | _ => cases h

theorem any_eq (ht : Tells p alarm alarm') {α : Type} {es : List α} {ending : α → Ending}
    (h : ∀ e ∈ es, EndingMeets p (ending e)) :
    (es.any fun e => alarm (ending e)) = es.any fun e => alarm' (ending e) := by
  induction es with
  | nil => rfl
  | cons e es ih =>
    rw [List.forall_mem_cons] at h
    rw [List.any_cons, List.any_cons, ht.agree _ h.1, ih h.2]

end Tells

/-- From every machine whose bound values meet a condition, two watched runs break off at
    the same site, if they do; otherwise they give the same result, the run that is not
    watched gives it in a shape of its own, and bound values meet the condition afterwards. -/
def Agrees (p : Value → Prop) (alarm : Ending → Bool) {α β : Type} (shape : α → β)
    (post : α → Prop) (x : Monkey.Run β) (y z : Watched.Run α) : Prop :=
  ∀ m, Machine.Holds p m → y m = z m ∧ match z m with
    | .ok a m' => x m = .ok (shape a) m' ∧ m'.Holds p ∧ post a
    | .error (.stopped reason) m' => x m = .error reason m' ∧ m'.Holds p
    | .error (.thrown _) _ => ∃ e, alarm e

/-- Agreement of evaluation with watched evaluation of a node. -/
abbrev Alike (p : Value → Prop) (alarm : Ending → Bool) (x : Monkey.Run Value)
    (y z : Watched.Run Ending) : Prop :=
  Agrees p alarm Ending.toValue (EndingMeets p) x y z

/-- Agreement of evaluation with watched evaluation of what is handed out. -/
abbrev AlikeOut (p : Value → Prop) (alarm : Ending → Bool) (x : Monkey.Run Value)
    (y z : Watched.Run Value) : Prop :=
  Agrees p alarm id (Value.Everywhere p) x y z

namespace Agrees

variable {α β γ δ : Type} {shape : α → β} {post : α → Prop}

protected theorem pure (shape : α → β) {a : α} (h : post a) :
    Agrees p alarm' shape post (pure (shape a)) (pure a) (pure a) :=
  fun _ hm => ⟨rfl, rfl, hm, h⟩

theorem stop (reason : Stop) :
    Agrees p alarm' shape post (throw reason) (throw (.stopped reason))
      (throw (.stopped reason)) :=
  fun _ hm => ⟨rfl, rfl, hm⟩

theorem bind {shape' : γ → δ} {post' : γ → Prop} {x : Monkey.Run β} {y z : Watched.Run α}
    {f : β → Monkey.Run δ} {g k : α → Watched.Run γ} (hx : Agrees p alarm' shape post x y z)
    (hf : ∀ a, post a → Agrees p alarm' shape' post' (f (shape a)) (g a) (k a)) :
    Agrees p alarm' shape' post' (x >>= f) (y >>= g) (z >>= k) := by
  intro m hm
  obtain ⟨hy, hrun⟩ := hx m hm
  cases hz : z m with
  | ok a m' =>
    rw [hz] at hy hrun
    rw [bind_run_ok hy, bind_run_ok hz, bind_run_ok hrun.1]
    exact hf a hrun.2.2 m' hrun.2.1
  | error halt m' =>
    rw [hz] at hy hrun
    rw [bind_run_error hy, bind_run_error hz]
    refine ⟨rfl, ?_⟩
    cases halt with
    | stopped reason =>
      rw [bind_run_error hrun.1]
      exact ⟨rfl, hrun.2⟩
    | thrown site => exact hrun

/-- A step that is not watched. -/
theorem step_bind {x : Monkey.Run γ} {f : γ → Monkey.Run β} {g k : γ → Watched.Run α}
    {mid : γ → Prop} (hx : Keeps (Machine.Holds p) x mid)
    (hf : ∀ c, mid c → Agrees p alarm' shape post (f c) (g c) (k c)) :
    Agrees p alarm' shape post (x >>= f) (step x >>= g) (step x >>= k) := by
  intro m hm
  have hrun := hx m hm
  cases h : x m with
  | ok c m' =>
    rw [h] at hrun
    rw [bind_run_ok h, bind_run_ok (Halt.step_run_ok h), bind_run_ok (Halt.step_run_ok h)]
    exact hf c hrun.2 m' hrun.1
  | error reason m' =>
    rw [h] at hrun
    rw [bind_run_error h, bind_run_error (Halt.step_run_error h),
      bind_run_error (Halt.step_run_error h)]
    exact ⟨rfl, rfl, hrun.1⟩

theorem ite {c : Prop} [Decidable c] {x x' : Monkey.Run β} {y y' z z' : Watched.Run α}
    (h : c → Agrees p alarm' shape post x y z)
    (h' : ¬ c → Agrees p alarm' shape post x' y' z') :
    Agrees p alarm' shape post (if c then x else x') (if c then y else y')
      (if c then z else z') := by
  by_cases hc : c
  · rw [if_pos hc, if_pos hc, if_pos hc]
    exact h hc
  · rw [if_neg hc, if_neg hc, if_neg hc]
    exact h' hc

theorem value {v : Value} (h : v.Everywhere p) :
    Alike p alarm' (pure v) (pure (.value v)) (pure (.value v)) :=
  Agrees.pure Ending.toValue (a := .value v) h

/-- A last step, and a value that is handed out as it is. -/
theorem last {x : Monkey.Run Value} (hx : Keeps (Machine.Holds p) x (Value.Everywhere p)) :
    AlikeOut p alarm' x (step x) (step x) := by
  have h : AlikeOut p alarm' (x >>= pure) (step x >>= pure) (step x >>= pure) :=
    step_bind hx fun _ hc => Agrees.pure id hc
  rwa [bind_pure, bind_pure] at h

theorem valueOf {x : Monkey.Run Value} (hx : Keeps (Machine.Holds p) x (Value.Everywhere p)) :
    Alike p alarm' x (valueOf x) (valueOf x) := by
  have h : Alike p alarm' (x >>= pure) (Watched.valueOf x)
      (Watched.valueOf x) :=
    step_bind hx fun _ hc => value hc
  rwa [bind_pure] at h

theorem traced {tracing : Bool} {n : Node} {x : Monkey.Run β} {y z : Watched.Run α}
    (h : Agrees p alarm' shape post x y z) :
    Agrees p alarm' shape post (Eval.trace tracing n >>= fun _ => x)
      (step (Eval.trace tracing n) >>= fun _ => y) (step (Eval.trace tracing n) >>= fun _ => z) :=
  step_bind (trace_keeps tracing n) fun _ _ => h

/-- An ending that the rule checks for an error before it goes on. -/
theorem checked_bind {x : Monkey.Run Value} {y z : Watched.Run Ending}
    {f : Value → Monkey.Run Value} {g k : Ending → Watched.Run Ending}
    (hx : Alike p alarm' x y z)
    (hf : ∀ e, EndingMeets p e → Alike p alarm' (f e.toValue) (g e) (k e)) :
    Alike p alarm' (x >>= fun v => if v.isError then pure v else f v)
      (y >>= fun e => if e.isError then pure e else g e)
      (z >>= fun e => if e.isError then pure e else k e) := by
  apply bind hx
  intro e he
  exact ite (fun _ => Agrees.pure _ he) fun _ => hf e he

/-- A result that is given only if there is no alarm. -/
theorem guard_bind {b b' : Bool} (hb : b = b') (halarm : b' → ∃ e, alarm' e) {c : γ}
    {site : Site} {x : Monkey.Run β} {g k : γ → Watched.Run α}
    (hx : ¬ b' → Agrees p alarm' shape post x (g c) (k c)) :
    Agrees p alarm' shape post x ((if b then throw (.thrown site) else pure c) >>= g)
      ((if b' then throw (.thrown site) else pure c) >>= k) := by
  subst hb
  by_cases h : b
  · rw [if_pos h]
    exact fun _ _ => ⟨rfl, halarm h⟩
  · rw [if_neg h, pure_bind, pure_bind]
    exact hx h

end Agrees

/-! ## Values that get to a site -/

section Sites

variable {α β : Type} {shape : α → β} {post : α → Prop} {x : Monkey.Run β}

theorem pass_bind (ht : Tells p alarm alarm') {e : Ending} (he : EndingMeets p e) (site : Site)
    {g k : Value → Watched.Run α}
    (hx : e.toValue.Everywhere p →
      Agrees p alarm' shape post x (g e.toValue) (k e.toValue)) :
    Agrees p alarm' shape post x (pass alarm site e >>= g) (pass alarm' site e >>= k) :=
  Agrees.guard_bind (ht.agree e he) (fun h => ⟨e, h⟩) fun h => hx (ht.meets e he h)

/-- An opened return that is handed out. -/
theorem pass_alike (ht : Tells p alarm alarm') {e : Ending} (he : EndingMeets p e)
    (site : Site) :
    AlikeOut p alarm' (pure e.toValue) (pass alarm site e) (pass alarm' site e) := by
  have h : AlikeOut p alarm' (pure e.toValue) (pass alarm site e >>= pure)
      (pass alarm' site e >>= pure) :=
    pass_bind ht he site fun hv => Agrees.pure id hv
  rwa [bind_pure, bind_pure] at h

theorem passAll_bind (ht : Tells p alarm alarm') {es : List Ending}
    (hes : ∀ e ∈ es, EndingMeets p e) (site : Site) {g k : List Value → Watched.Run α}
    (hx : (∀ v ∈ es.map Ending.toValue, v.Everywhere p) →
      Agrees p alarm' shape post x (g (es.map Ending.toValue)) (k (es.map Ending.toValue))) :
    Agrees p alarm' shape post x (passAll alarm site es >>= g)
      (passAll alarm' site es >>= k) := by
  refine Agrees.guard_bind (ht.any_eq hes) (fun h => ?_) fun hno => hx fun v hv => ?_
  · obtain ⟨e, -, he⟩ := List.any_eq_true.mp h
    exact ⟨e, he⟩
  · obtain ⟨e, he, rfl⟩ := List.mem_map.mp hv
    exact ht.meets e (hes e he) fun h => hno (List.any_eq_true.mpr ⟨e, he, h⟩)

/-- Entries of a hash whose keys meet a condition everywhere, and whose values end as another
    condition says. -/
structure EntriesMeet (p : Value → Prop) (ends : Ending → Prop)
    (entries : Ordered HashKey (Value × Ending)) : Prop where
  keys : ∀ e ∈ entries, e.2.1.Everywhere p
  values : ∀ e ∈ entries, ends e.2.2

theorem entriesMeet_nil {ends : Ending → Prop} : EntriesMeet p ends [] :=
  ⟨List.forall_mem_nil _, List.forall_mem_nil _⟩

theorem EntriesMeet.insert {ends : Ending → Prop} {entries : Ordered HashKey (Value × Ending)}
    (h : EntriesMeet p ends entries) (k : HashKey) {key : Value} {e : Ending}
    (hkey : key.Everywhere p) (he : ends e) : EntriesMeet p ends (entries.insert k (key, e)) where
  keys := Ordered.forall_mem_insert hkey h.keys
  values := Ordered.forall_mem_insert he h.values

theorem valuesOf_insert (entries : Ordered HashKey (Value × Ending)) (k : HashKey)
    (key : Value) (e : Ending) :
    valuesOf (entries.insert k (key, e)) = (valuesOf entries).insert k (key, e.toValue) :=
  Ordered.map_insert (fun q : Value × Ending => (q.1, q.2.toValue)) k (key, e) entries

theorem passEntries_bind (ht : Tells p alarm alarm')
    {entries : Ordered HashKey (Value × Ending)} (h : EntriesMeet p (EndingMeets p) entries)
    {g k : Ordered HashKey (Value × Value) → Watched.Run α}
    (hx : (∀ e ∈ valuesOf entries, e.2.1.Everywhere p) →
      (∀ e ∈ valuesOf entries, e.2.2.Everywhere p) →
      Agrees p alarm' shape post x (g (valuesOf entries)) (k (valuesOf entries))) :
    Agrees p alarm' shape post x (passEntries alarm entries >>= g)
      (passEntries alarm' entries >>= k) := by
  refine Agrees.guard_bind (ht.any_eq h.values) (fun h => ?_) fun hno =>
    hx (fun v hv => ?_) fun v hv => ?_
  · obtain ⟨e, -, he⟩ := List.any_eq_true.mp h
    exact ⟨e.2.2, he⟩
  · obtain ⟨e, he, rfl⟩ := List.mem_map.mp hv
    exact h.keys e he
  · obtain ⟨e, he, rfl⟩ := List.mem_map.mp hv
    exact ht.meets _ (h.values e he) fun h => hno (List.any_eq_true.mpr ⟨e, he, h⟩)

end Sites

/-! ## Evaluation agrees -/

/-- Entries of a hash with their values instead of endings, unless there is an error. -/
def entriesOf : Except Value (Ordered HashKey (Value × Ending)) →
    Except Value (Ordered HashKey (Value × Value)) :=
  Except.map valuesOf

/-- Values instead of endings, unless there is an error. -/
def listOf : Except Value (List Ending) → Except Value (List Value) :=
  Except.map (List.map Ending.toValue)

/-- A condition on what has been read, or on the error that was met. -/
def ReadMeets (p : Value → Prop) {α : Type} (post : α → Prop) : Except Value α → Prop
  | .ok a => post a
  | .error v => v.Everywhere p

variable {cx : EvalContext} {call call' : Value → List Value → Watched.Run Value}

/-- Two ways to call a function under watch agree with that of a context. -/
def CallsAlike (p : Value → Prop) (alarm : Ending → Bool) (cx : EvalContext)
    (call call' : Value → List Value → Watched.Run Value) : Prop :=
  ∀ f args, (∀ v ∈ args, v.Everywhere p) →
    AlikeOut p alarm (cx.call f args) (call f args) (call' f args)

/-- A last step that is not watched. -/
theorem fine_alike (ht : Tells p alarm alarm') {x : Monkey.Run Value}
    (hx : Keeps (Machine.Holds p) x (Value.Fine p)) :
    Alike p alarm' x (valueOf x) (valueOf x) :=
  Agrees.valueOf (hx.mono fun _ => ht.of_fine)

theorem fine_alikeOut (ht : Tells p alarm alarm') {x : Monkey.Run Value}
    (hx : Keeps (Machine.Holds p) x (Value.Fine p)) :
    AlikeOut p alarm' x (step x) (step x) :=
  Agrees.last (hx.mono fun _ => ht.of_fine)

/-- An early return is no array and no hash. -/
theorem applyIndex_ending_fine (ht : Tells p alarm alarm') (surrogate? : Text.Surrogates)
    {left : Ending} (hleft : EndingMeets p left) (right : Value) :
    Keeps (Machine.Holds p) (Operator.applyIndex surrogate? left.toValue right)
      (Value.Fine p) := by
  cases left with
  | value v => exact applyIndex_fine ht.admits surrogate? hleft right
  | returned => exact demand_bind (raise_fine _)

mutual

/-- Evaluation of a node agrees with watched evaluation of it. -/
theorem eval_alike (ht : Tells p alarm alarm')
    (hc : CallsAlike p alarm' cx call call') (frame : FrameId) : (n : Node) →
    Alike p alarm' (Eval.eval cx frame n)
      (Watched.eval ⟨cx, alarm, call⟩ frame n)
      (Watched.eval ⟨cx, alarm', call'⟩ frame n)
  | .program ss _ => by
    rw [Eval.eval, Watched.eval, Watched.eval]
    apply Agrees.traced
    have hprogram := evalProgram_alike ht hc frame ht.absent ss
    rw [← bind_pure (Eval.evalProgram _ _ _ _)]
    exact Agrees.bind hprogram fun v hv => Agrees.value hv
  | .exprStatement e _ => by
    rw [Eval.eval, Watched.eval, Watched.eval]
    exact Agrees.traced (eval_alike ht hc frame e)
  | .block ss _ => by
    rw [Eval.eval, Watched.eval, Watched.eval]
    apply Agrees.traced
    exact evalBlock_alike ht hc frame ht.absent ss
  | .letBinding x e _ => by
    rw [Eval.eval, Watched.eval, Watched.eval]
    apply Agrees.traced
    have heval := eval_alike ht hc frame e
    apply Agrees.checked_bind heval
    intro e he
    apply pass_bind ht he _
    intro hv
    exact Agrees.step_bind (bindName_keeps hv) fun _ _ => Agrees.value ht.absent
  | .returning e _ => by
    rw [Eval.eval, Watched.eval, Watched.eval]
    apply Agrees.traced
    have heval := eval_alike ht hc frame e
    apply Agrees.checked_bind heval
    intro e he
    exact Agrees.step_bind newObject_keeps fun id _ =>
      Agrees.pure Ending.toValue (a := .returned id e) he
  | .integer n _ => by
    rw [Eval.eval, Watched.eval, Watched.eval]
    apply Agrees.traced
    exact Agrees.value (integer_everywhere ht.admits _)
  | .string s _ => by
    rw [Eval.eval, Watched.eval, Watched.eval]
    apply Agrees.traced
    exact Agrees.value (string_everywhere ht.admits _)
  | .boolean b _ => by
    rw [Eval.eval, Watched.eval, Watched.eval]
    apply Agrees.traced
    exact Agrees.value (boolean_everywhere ht.admits _)
  | .array es _ => by
    rw [Eval.eval, Watched.eval, Watched.eval]
    apply Agrees.traced
    have hall := evalAll_alike ht hc frame es
    apply Agrees.bind hall
    intro r hr
    cases r with
    | error v => exact Agrees.value hr
    | ok es =>
      exact passAll_bind ht hr _ fun hvs => Agrees.valueOf (newArray_keeps ht.admits hvs)
  | .hash ps _ => by
    rw [Eval.eval, Watched.eval, Watched.eval]
    apply Agrees.traced
    have hpairs := evalPairs_alike ht hc frame entriesMeet_nil ps
    apply Agrees.bind hpairs
    intro r hr
    cases r with
    | error v => exact Agrees.value hr
    | ok es =>
      exact passEntries_bind ht hr fun hkeys hvalues =>
        Agrees.valueOf (newHash_keeps ht.admits hkeys hvalues)
  | .function xs b _ => by
    rw [Eval.eval, Watched.eval, Watched.eval]
    apply Agrees.traced
    exact Agrees.valueOf
      (Ensures.bind newObject_keeps fun _ _ => Ensures.pure _ (.plain rfl (ht.function ..)))
  | .identifier x => by
    rw [Eval.eval, Watched.eval, Watched.eval]
    apply Agrees.traced
    exact fine_alike ht (valueOfName_fine ht.admits _ _ _)
  | .prefixed o r _ => by
    rw [Eval.eval, Watched.eval, Watched.eval]
    apply Agrees.traced
    have heval := eval_alike ht hc frame r
    apply Agrees.checked_bind heval
    intro e he
    exact fine_alike ht (applyPrefix_fine ht.admits o _)
  | .binary l o r _ => by
    rw [Eval.eval, Watched.eval, Watched.eval]
    apply Agrees.traced
    have heval := eval_alike ht hc frame l
    apply Agrees.checked_bind heval
    intro e he
    have heval := eval_alike ht hc frame r
    apply Agrees.checked_bind heval
    intro e' he'
    exact fine_alike ht (applyBinary_fine ht.admits o _ _)
  | .conditional c t a _ => by
    rw [Eval.eval, Watched.eval, Watched.eval]
    apply Agrees.traced
    have heval := eval_alike ht hc frame c
    apply Agrees.checked_bind heval
    intro e he
    refine Agrees.ite (fun _ => ?_) fun _ => ?_
    · exact eval_alike ht hc frame t
    · exact evalAlternative_alike ht hc frame a
  | .call f as _ => by
    rw [Eval.eval, Watched.eval, Watched.eval]
    apply Agrees.traced
    have heval := eval_alike ht hc frame f
    apply Agrees.checked_bind heval
    intro e he
    have hall := evalAll_alike ht hc frame as
    apply Agrees.bind hall
    intro r hr
    cases r with
    | error v => exact Agrees.value hr
    | ok es =>
      apply passAll_bind ht hr _
      intro hvs
      have hcall := hc e.toValue _ hvs
      show Alike p alarm' (cx.call e.toValue (es.map Ending.toValue)) _ _
      rw [← bind_pure (cx.call e.toValue (es.map Ending.toValue))]
      exact Agrees.bind hcall fun v hv => Agrees.value hv
  | .index l i _ => by
    rw [Eval.eval, Watched.eval, Watched.eval]
    apply Agrees.traced
    have heval := eval_alike ht hc frame l
    apply Agrees.checked_bind heval
    intro e he
    have heval := eval_alike ht hc frame i
    apply Agrees.checked_bind heval
    intro e' he'
    exact fine_alike ht (applyIndex_ending_fine ht _ he _)
  | .bare family => by
    rw [Eval.eval, Watched.eval, Watched.eval]
    apply Agrees.traced
    exact fine_alike ht (raise_fine _)

theorem evalAlternative_alike (ht : Tells p alarm alarm')
    (hc : CallsAlike p alarm' cx call call') (frame : FrameId) :
    (a : Option Node) →
    Alike p alarm' (Eval.evalAlternative cx frame a)
      (Watched.evalAlternative ⟨cx, alarm, call⟩ frame a)
      (Watched.evalAlternative ⟨cx, alarm', call'⟩ frame a)
  | none => Agrees.value (null_everywhere ht.admits)
  | some n => eval_alike ht hc frame n

theorem evalProgram_alike (ht : Tells p alarm alarm')
    (hc : CallsAlike p alarm' cx call call') (frame : FrameId)
    {last : Value} (hlast : last.Everywhere p) : (ss : List Node) →
    AlikeOut p alarm' (Eval.evalProgram cx frame last ss)
      (Watched.evalProgram ⟨cx, alarm, call⟩ frame last ss)
      (Watched.evalProgram ⟨cx, alarm', call'⟩ frame last ss)
  | [] => Agrees.pure id hlast
  | s :: ss => by
    rw [Eval.evalProgram, Watched.evalProgram, Watched.evalProgram]
    have heval := eval_alike ht hc frame s
    apply Agrees.bind heval
    intro e he
    cases e with
    | returned id operand => exact pass_alike ht (e := operand) he .outside
    | value v =>
      have hv : v.Everywhere p := he
      cases v with
      | error => exact Agrees.pure id hv
      | returned id v => exact pass_alike ht (e := .value v) hv.payload .outside
      | _ => exact evalProgram_alike ht hc frame hv ss

theorem evalBlock_alike (ht : Tells p alarm alarm')
    (hc : CallsAlike p alarm' cx call call') (frame : FrameId)
    {last : Value} (hlast : last.Everywhere p) : (ss : List Node) →
    Alike p alarm' (Eval.evalBlock cx frame last ss)
      (Watched.evalBlock ⟨cx, alarm, call⟩ frame last ss)
      (Watched.evalBlock ⟨cx, alarm', call'⟩ frame last ss)
  | [] => by
    rw [Eval.evalBlock, Watched.evalBlock, Watched.evalBlock]
    refine Agrees.value ?_
    split
    · exact (null_everywhere ht.admits)
    · exact hlast
  | s :: ss => by
    rw [Eval.evalBlock, Watched.evalBlock, Watched.evalBlock]
    have heval := eval_alike ht hc frame s
    apply Agrees.bind heval
    intro e he
    cases e with
    | returned id operand => exact Agrees.pure Ending.toValue (a := .returned id operand) he
    | value v =>
      have hv : v.Everywhere p := he
      cases v with
      | error | returned => exact Agrees.value hv
      | _ => exact evalBlock_alike ht hc frame hv ss

theorem evalAll_alike (ht : Tells p alarm alarm')
    (hc : CallsAlike p alarm' cx call call') (frame : FrameId) :
    (ns : List Node) →
    Agrees p alarm' listOf (ReadMeets p fun es => ∀ e ∈ es, EndingMeets p e)
      (Eval.evalAll cx frame ns)
      (Watched.evalAll ⟨cx, alarm, call⟩ frame ns)
      (Watched.evalAll ⟨cx, alarm', call'⟩ frame ns)
  | [] => Agrees.pure listOf (a := .ok []) (List.forall_mem_nil _)
  | n :: ns => by
    rw [Eval.evalAll, Watched.evalAll, Watched.evalAll]
    have heval := eval_alike ht hc frame n
    apply Agrees.bind heval
    intro e he
    refine Agrees.ite (fun herror => ?_) fun _ => ?_
    · exact Agrees.pure listOf (a := .error _) (ht.of_isError herror)
    have hall := evalAll_alike ht hc frame ns
    apply Agrees.bind hall
    intro r hr
    cases r with
    | error v => exact Agrees.pure listOf (a := .error v) hr
    | ok es => exact Agrees.pure listOf (a := .ok (e :: es)) (List.forall_mem_cons.mpr ⟨he, hr⟩)

theorem evalPairs_alike (ht : Tells p alarm alarm')
    (hc : CallsAlike p alarm' cx call call') (frame : FrameId)
    {entries : Ordered HashKey (Value × Ending)}
    (hentries : EntriesMeet p (EndingMeets p) entries) :
    (ps : List (Node × Node)) →
    Agrees p alarm' entriesOf (ReadMeets p (EntriesMeet p (EndingMeets p)))
      (Eval.evalPairs cx frame (valuesOf entries) ps)
      (Watched.evalPairs ⟨cx, alarm, call⟩ frame entries ps)
      (Watched.evalPairs ⟨cx, alarm', call'⟩ frame entries ps)
  | [] => Agrees.pure entriesOf (a := .ok entries) hentries
  | (k, v) :: ps => by
    rw [Eval.evalPairs, Watched.evalPairs, Watched.evalPairs]
    have heval := eval_alike ht hc frame k
    apply Agrees.bind heval
    intro key hkey
    refine Agrees.ite (fun herror => ?_) fun _ => ?_
    · exact Agrees.pure entriesOf (a := .error _) (ht.of_isError herror)
    apply Agrees.step_bind (demand_keeps _)
    intro _ _
    refine Agrees.ite (fun hhashable => ?_) fun _ => ?_
    · have heval := eval_alike ht hc frame v
      apply Agrees.bind heval
      intro e he
      refine Agrees.ite (fun herror => ?_) fun _ => ?_
      · exact Agrees.pure entriesOf (a := .error _) (ht.of_isError herror)
      apply Agrees.step_bind (keyOf_keeps _ _)
      intro k _
      have hnext := hentries.insert k (ht.of_isHashable hhashable) he
      have hrest := evalPairs_alike ht hc frame hnext ps
      rwa [valuesOf_insert] at hrest
    · exact Agrees.step_bind (raise_fine _) fun e he =>
        Agrees.pure entriesOf (a := .error e) (ht.of_fine he)

end

/-! ## Calls agree -/

/-- What a function body leaves for its caller. -/
theorem openReturn_alike (ht : Tells p alarm alarm') {e : Ending} (he : EndingMeets p e) :
    AlikeOut p alarm' (Eval.openReturn e.toValue)
      (if e.isSignal then pass alarm .caller e.opened else step (Eval.openReturn e.toValue))
      (if e.isSignal then pass alarm' .caller e.opened
        else step (Eval.openReturn e.toValue)) := by
  cases e with
  | returned id operand => exact pass_alike ht (e := operand) he .caller
  | value v =>
    have hv : v.Everywhere p := he
    cases v with
    | returned id v => exact pass_alike ht (e := .value v) hv.payload .caller
    | _ => exact Agrees.last (openReturn_keeps hv)

/-- Calling what is no function of the program. -/
theorem applyOther_alike (ht : Tells p alarm alarm') (setting : Setting) (depth : Nat)
    {f : Value} {args : List Value} (hargs : ∀ v ∈ args, v.Everywhere p)
    (hother : f.isFunction = false) :
    AlikeOut p alarm' (Eval.applyFunction setting depth f args)
      (Watched.applyFunction setting alarm depth f args)
      (Watched.applyFunction setting alarm' depth f args) := by
  cases f with
  | function => cases hother
  | builtin b =>
    rw [Eval.applyFunction, Watched.applyFunction, Watched.applyFunction]
    exact fine_alikeOut ht (apply_fine ht.admits b hargs)
  | absent =>
    rw [Eval.applyFunction, Watched.applyFunction, Watched.applyFunction]
    exact Agrees.stop .absentOperand
  | _ =>
    rw [Eval.applyFunction, Watched.applyFunction, Watched.applyFunction]
    · exact fine_alikeOut ht (raise_fine _)
    all_goals (intros; contradiction)

/-- Calls agree, however deeply they may be nested. -/
theorem applyFunction_alike (ht : Tells p alarm alarm') (setting : Setting) (depth : Nat) :
    CallsAlike p alarm' (Eval.contextOfDepth setting depth)
      (Watched.applyFunction setting alarm depth)
      (Watched.applyFunction setting alarm' depth) := by
  induction depth with
  | zero =>
    intro f args hargs
    show AlikeOut p alarm' (Eval.applyFunction setting 0 f args) _ _
    cases f with
    | function id xs b frame =>
      rw [Eval.applyFunction, Watched.applyFunction, Watched.applyFunction]
      refine Agrees.ite (fun _ => ?_) fun _ => Agrees.stop .callDepth
      exact fine_alikeOut ht (raise_fine _)
    | _ => exact applyOther_alike ht setting 0 hargs rfl
  | succ depth ih =>
    intro f args hargs
    show AlikeOut p alarm' (Eval.applyFunction setting (depth + 1) f args) _ _
    cases f with
    | function id xs b frame =>
      rw [Eval.applyFunction, Watched.applyFunction, Watched.applyFunction]
      refine Agrees.ite (fun _ => ?_) fun _ => ?_
      · exact fine_alikeOut ht (raise_fine _)
      apply Agrees.step_bind (createFrame_keeps (some frame))
      intro inner _
      apply Agrees.step_bind (bindAll_keeps xs hargs)
      intro _ _
      exact Agrees.bind (eval_alike ht ih inner b) fun e he => openReturn_alike ht he
    | _ => exact applyOther_alike ht setting (depth + 1) hargs rfl

/-- Top-level statements agree. -/
theorem evalStatements_alike (ht : Tells p alarm alarm') (setting : Setting) (frame : FrameId)
    (ss : List Node) :
    AlikeOut p alarm' (Monkey.evalStatements setting frame ss)
      (Watched.evalStatements setting alarm frame ss)
      (Watched.evalStatements setting alarm' frame ss) :=
  evalProgram_alike ht (applyFunction_alike ht setting setting.callLimit) frame ht.absent ss

end Watched

end Monkey
