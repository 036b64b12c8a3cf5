import Monkey.Proofs.Eval.Keeps
import Monkey.Proofs.Eval.Observed

/-!
# Observed evaluation and evaluation

Observed evaluation is evaluation with a log.  The log is accurate: what it says was made had a
number that nothing made before has, and every array, hash, function and early return that is
bound, handed on or given to an operator is one that the log says was made.
-/

namespace Monkey

/-- The number of a value that is made by evaluation and can be told from others. -/
def Value.number? : Value → Option ObjectId
  | array id _ | hash id _ | function id .. | returned id _ => some id
  | _ => none

namespace Observed

/-! ## Logs -/

/-- The number of the value that an event made. -/
def Event.number? : Event → Option ObjectId
  | made _ v => v.number?
  | applied .. => none

/-- What is called is one of the builtins. -/
def Origin.Among (builtins : List Builtin) : Origin → Prop
  | evaluated _ => True
  | called b _ => b ∈ builtins

/-- A log says where a value comes from, if it comes from somewhere. -/
def Known (builtins : List Builtin) (log : Log) : Value → Prop
  | .array id vs => ∃ origin, .made origin (.array id vs) ∈ log
  | .hash id es => ∃ origin, .made origin (.hash id es) ∈ log
  | .function id xs b frame => ∃ origin, .made origin (.function id xs b frame) ∈ log
  | .returned id v => ∃ origin, .made origin (.returned id v) ∈ log
  | .builtin b => b ∈ builtins
  | .error .. | .tagged .. => False
  | .integer _ | .boolean _ | .string _ | .null | .absent => True

/-- A log says where a value and everything within it comes from. -/
abbrev Accounts (builtins : List Builtin) (log : Log) (v : Value) : Prop :=
  v.Everywhere (Known builtins log)

/-- What an event says is so.  A value is made by what makes such values; an operator is applied
    to values of which the log says where they come from, and gives what it gives. -/
def Event.Proper (builtins : List Builtin) (log : Log) : Event → Prop
  | made origin v => origin.makes v ∧ origin.Among builtins
  | applied operator l r v => Accounts builtins log l ∧ Accounts builtins log r ∧
    ∃ m m', Operator.applyBinary operator l r m = .ok v m'

/-- What a log says is so, and values are made with ever greater numbers. -/
structure Accurate (builtins : List Builtin) (log : Log) : Prop where
  ordered : log.Pairwise fun e f => ∀ n ∈ e.number?, ∀ k ∈ f.number?, n < k
  proper : ∀ e ∈ log, e.Proper builtins log

/-- The log is accurate, no number in it is free, and it says where all bound values come from. -/
structure Sound (builtins : List Builtin) (s : State) : Prop where
  accurate : Accurate builtins s.log
  below : ∀ e ∈ s.log, ∀ n ∈ e.number?, n < s.machine.nextObject
  bound : s.machine.Holds (Known builtins s.log)

variable {builtins : List Builtin} {log log' : Log}

theorem Known.mono (hle : log <+: log') (v : Value) (h : Known builtins log v) :
    Known builtins log' v := by
  cases v with
  | array | hash | function | returned => exact h.imp fun _ hmem => hle.subset hmem
  | _ => exact h

theorem Accounts.mono (hle : log <+: log') {v : Value} (h : Accounts builtins log v) :
    Accounts builtins log' v :=
  Value.Everywhere.mono (Known.mono hle) h

theorem Event.Proper.mono (hle : log <+: log') {e : Event} (h : e.Proper builtins log) :
    e.Proper builtins log' := by
  cases e with
  | made => exact h
  | applied => exact ⟨h.1.mono hle, h.2.1.mono hle, h.2.2⟩

theorem Accurate.append {e : Event} (h : Accurate builtins log) (he : e.Proper builtins log)
    (hordered : ∀ f ∈ log, ∀ n ∈ f.number?, ∀ k ∈ e.number?, n < k) :
    Accurate builtins (log ++ [e]) := by
  have hle : log <+: log ++ [e] := List.prefix_append log [e]
  constructor
  · refine List.pairwise_append.mpr ⟨h.ordered, List.pairwise_singleton _ e, fun f hf g hg => ?_⟩
    rw [List.mem_singleton] at hg
    exact hg ▸ hordered f hf
  · intro f hf
    rcases List.mem_append.mp hf with hf | hf
    · exact (h.proper f hf).mono hle
    · exact List.mem_singleton.mp hf ▸ he.mono hle

namespace Sound

variable {s : State}

/-- A step that makes nothing which the log would have to tell of. -/
theorem move (h : Sound builtins s) {m : Machine} (hbound : m.Holds (Known builtins s.log))
    (hnext : s.machine.nextObject ≤ m.nextObject) : Sound builtins ⟨m, s.log⟩ where
  accurate := h.accurate
  below e he n hn := Nat.lt_of_lt_of_le (h.below e he n hn) hnext
  bound := hbound

/-- A value is made with the next number. -/
theorem make (h : Sound builtins s) {origin : Origin} {v : Value}
    (hnumber : v.number? = some s.machine.nextObject) (hmakes : origin.makes v)
    (hamong : origin.Among builtins) :
    Sound builtins ⟨{ s.machine with nextObject := s.machine.nextObject + 1 },
      s.log ++ [.made origin v]⟩ where
  accurate := by
    refine h.accurate.append ⟨hmakes, hamong⟩ fun f hf n hn k hk => ?_
    have heq : s.machine.nextObject = k := Option.some.inj (hnumber.symm.trans hk)
    exact heq ▸ h.below f hf n hn
  below := by
    intro e he n hn
    rcases List.mem_append.mp he with he | he
    · exact Nat.lt_succ_of_lt (h.below e he n hn)
    · rw [List.mem_singleton.mp he] at hn
      have heq : s.machine.nextObject = n := Option.some.inj (hnumber.symm.trans hn)
      exact heq ▸ Nat.lt_succ_self _
  bound := Heap.Everywhere.mono (Known.mono (List.prefix_append s.log _)) h.bound

/-- An operator is applied to values of which the log says where they come from. -/
theorem apply (h : Sound builtins s) {operator : String} {l r v : Value} {m : Machine}
    (hrun : Operator.applyBinary operator l r s.machine = .ok v m)
    (hl : Accounts builtins s.log l) (hr : Accounts builtins s.log r)
    (hbound : m.Holds (Known builtins s.log)) (hnext : s.machine.nextObject ≤ m.nextObject) :
    Sound builtins ⟨m, s.log ++ [.applied operator l r v]⟩ where
  accurate := h.accurate.append ⟨hl, hr, _, _, hrun⟩ fun _ _ _ _ _ hk => nomatch hk
  below := by
    intro e he n hn
    rcases List.mem_append.mp he with he | he
    · exact Nat.lt_of_lt_of_le (h.below e he n hn) hnext
    · rw [List.mem_singleton.mp he] at hn
      cases hn
  bound := Heap.Everywhere.mono (Known.mono (List.prefix_append s.log _)) hbound

end Sound

/-! ## Steps that make nothing -/

/-- A step keeps a condition on bound values and uses no number again; its result meets another
    condition. -/
def Handles (p : Value → Prop) {α : Type} (x : Monkey.Run α) (post : α → Prop) : Prop :=
  ∀ n : ObjectId, Keeps (fun m => m.Holds p ∧ n ≤ m.nextObject) x post

namespace Handles

variable {p : Value → Prop} {α β : Type} {post : β → Prop}

protected theorem pure {b : β} (h : post b) : Handles p (pure b) post :=
  fun _ => Ensures.pure post h

protected theorem throw (reason : Stop) : Handles p (throw reason : Monkey.Run β) post :=
  fun _ => Ensures.throw trivial

theorem bind {x : Monkey.Run α} {f : α → Monkey.Run β} {mid : α → Prop} (hx : Handles p x mid)
    (hf : ∀ a, mid a → Handles p (f a) post) : Handles p (x >>= f) post :=
  fun n => Ensures.bind (hx n) fun a ha => hf a ha n

theorem ite {c : Prop} [Decidable c] {x y : Monkey.Run β} (hx : Handles p x post)
    (hy : Handles p y post) : Handles p (if c then x else y) post :=
  fun n => Ensures.ite (fun _ => hx n) fun _ => hy n

theorem mono {x : Monkey.Run β} {post' : β → Prop} (hx : Handles p x post)
    (h : ∀ b, post b → post' b) : Handles p x post' :=
  fun n => (hx n).mono h

theorem newObject : Handles p Machine.newObject fun _ => True :=
  fun _ _ hm => ⟨⟨hm.1, Nat.le_succ_of_le hm.2⟩, trivial⟩

theorem write (line : OutputLine) : Handles p (Machine.write line) fun _ => True :=
  fun _ _ hm => ⟨hm, trivial⟩

theorem createFrame (outer : Option FrameId) :
    Handles p (Machine.createFrame outer) fun _ => True :=
  fun _ _ hm => ⟨⟨Heap.Everywhere.create hm.1 outer, hm.2⟩, trivial⟩

theorem bindName (i : FrameId) (x : String) {v : Value} (hv : v.Everywhere p) :
    Handles p (Machine.bind i x v) fun _ => True :=
  fun _ _ hm => ⟨⟨Heap.Everywhere.bind hm.1 hv, hm.2⟩, trivial⟩

theorem lookup (i : FrameId) (x : String) :
    Handles p (Machine.lookup i x) fun v? => ∀ v ∈ v?, v.Everywhere p :=
  fun _ _ hm => ⟨hm, fun _ hv => Heap.Everywhere.lookup hm.1 hv⟩

theorem raise (problem : Problem) : Handles p problem.raise fun v => v.isError :=
  .bind newObject fun _ _ => .pure rfl

theorem demand (v : Value) : Handles p (Operator.demand v) fun _ => True :=
  .ite (.throw _) (.pure trivial)

theorem demanded {v : Value} {x : Monkey.Run β} (hx : Handles p x post) :
    Handles p (Operator.demand v >>= fun _ => x) post :=
  .bind (demand v) fun _ _ => hx

theorem bindAll (i : FrameId) (xs : List Name) {vs : List Value} (hvs : ∀ v ∈ vs, v.Everywhere p) :
    Handles p (Eval.bindAll i xs vs) fun _ => True := by
  induction xs generalizing vs with
  | nil => exact .pure trivial
  | cons x xs ih =>
    cases vs with
    | nil => exact .pure trivial
    | cons v vs =>
      rw [List.forall_mem_cons] at hvs
      exact .bind (bindName i x.value hvs.1) fun _ _ => ih hvs.2

end Handles

section Values

/-- A step that makes nothing gives an error, or a value of which the log says where it comes
    from. -/
abbrev Hands (builtins : List Builtin) (log : Log) (x : Monkey.Run Value) : Prop :=
  Handles (Known builtins log) x (Value.Fine (Known builtins log))

theorem Handles.value {v : Value} (h : Accounts builtins log v) : Hands builtins log (pure v) :=
  .pure (.inr h)

/-- A value that holds no others, and of which nothing need be said. -/
theorem Handles.plain {v : Value} (hplain : v.isPlain) (h : Known builtins log v) :
    Hands builtins log (pure v) :=
  .value (.plain hplain h)

theorem Handles.problem (problem : Problem) : Hands builtins log problem.raise :=
  (Handles.raise problem).mono fun _ => .inl

theorem accounts_null : Accounts builtins log .null := .plain rfl trivial

theorem accounts_absent : Accounts builtins log .absent := .plain rfl trivial

theorem valueOfName_hands {cx : EvalContext} (hcx : cx.builtins = builtins) (i : FrameId)
    (x : String) : Hands builtins log (Eval.valueOfName cx i x) := by
  have hbuiltin : ∀ b, Builtin.find? cx.builtins x = some b → b ∈ builtins :=
    fun b hb => hcx ▸ List.mem_of_find?_eq_some hb
  unfold Eval.valueOfName
  refine .bind (.lookup i x) fun v? hv => ?_
  split
  · split
    · next b hb => exact .plain rfl (hbuiltin b hb)
    · exact .problem _
  · split
    · next b hb => exact .plain rfl (hbuiltin b hb)
    · exact .problem _
  · exact .value (hv _ rfl)

theorem openReturn_hands {v : Value} (hv : v.Fine (Known builtins log)) :
    Hands builtins log (Eval.openReturn v) := by
  unfold Eval.openReturn
  split
  · rcases hv with hv | hv
    · cases hv
    · exact .value hv.payload
  · exact .throw _
  · exact .pure hv

theorem applyPrefix_hands (operator : String) (v : Value) :
    Hands builtins log (Operator.applyPrefix operator v) := by
  unfold Operator.applyPrefix
  refine .ite (.plain rfl trivial) (.demanded (.ite ?_ (.problem _)))
  split
  · exact .plain rfl trivial
  · exact .problem _

theorem applyIntegers_hands (operator : String) (a b : Int64) :
    Hands builtins log (Operator.applyIntegers operator a b) := by
  unfold Operator.applyIntegers
  split
  case h_4 => exact .ite (.problem _) (.plain rfl trivial)
  case h_9 => exact .problem _
  all_goals exact .plain rfl trivial

theorem applyBinary_hands (operator : String) (v w : Value) :
    Hands builtins log (Operator.applyBinary operator v w) := by
  unfold Operator.applyBinary
  refine .demanded (.demanded (.ite (.problem _) ?_))
  split
  · exact applyIntegers_hands operator _ _
  · exact .ite (.plain rfl trivial) (.problem _)
  · exact .ite (.plain rfl trivial) (.ite (.plain rfl trivial) (.problem _))

theorem keyOf_handles (surrogate? : Text.Surrogates) (v : Value) :
    Handles (Known builtins log) (Operator.keyOf surrogate? v) fun _ => True := by
  unfold Operator.keyOf
  split
  · exact .pure trivial
  · exact .throw _

theorem applyIndex_hands (surrogate? : Text.Surrogates) {v : Value}
    (hv : Accounts builtins log v) (w : Value) :
    Hands builtins log (Operator.applyIndex surrogate? v w) := by
  unfold Operator.applyIndex
  refine .demanded ?_
  split
  · refine .demanded ?_
    split
    · exact .value (elementAt_everywhere accounts_null hv.elements _)
    · exact .problem _
  · refine .demanded (.ite ?_ (.problem _))
    exact .bind (keyOf_handles surrogate? w) fun key _ =>
      .value (getD_everywhere accounts_null (hv.valueOfKey key))
  · exact .problem _

theorem printAll_hands (function : String) (vs : List Value) :
    Hands builtins log (Builtin.printAll function vs) := by
  induction vs with
  | nil => exact .value accounts_null
  | cons v vs ih =>
    rw [Builtin.printAll]
    exact .ite (.bind (.write _) fun _ _ => ih) (.problem _)

theorem lengthOf_hands (function : String) (vs : List Value) :
    Hands builtins log (Builtin.lengthOf function vs) := by
  unfold Builtin.lengthOf
  split
  case h_2 | h_3 | h_6 => exact .plain rfl trivial
  all_goals exact .problem _

end Values

/-! ## Runs beside observed runs -/

/-- Whenever a log has become at least a given one, a run and an observed run do the same, the log
    grows and is accurate again, and the result meets a condition that may depend on it. -/
def Observes (builtins : List Builtin) (log : Log) {α : Type} (x : Monkey.Run α) (y : Run α)
    (post : Log → α → Prop) : Prop :=
  ∀ s, Sound builtins s → log <+: s.log →
    match y s with
    | .ok a t => x s.machine = .ok a t.machine ∧ Sound builtins t ∧ s.log <+: t.log ∧ post t.log a
    | .error reason t =>
      x s.machine = .error reason t.machine ∧ Sound builtins t ∧ s.log <+: t.log

/-- The result of an evaluation: an error, or a value of which the log says where it comes from. -/
abbrev Values (builtins : List Builtin) (log : Log) (x : Monkey.Run Value) (y : Run Value) :
    Prop :=
  Observes builtins log x y fun log' => Value.Fine (Known builtins log')

namespace Observes

variable {α β : Type} {mid : Log → α → Prop} {post : Log → β → Prop}

theorem mono {x : Monkey.Run β} {y : Run β} (h : Observes builtins log x y post)
    (hle : log <+: log') : Observes builtins log' x y post :=
  fun s hs hlog => h s hs (hle.trans hlog)

protected theorem pure {b : β} (h : ∀ log', log <+: log' → post log' b) :
    Observes builtins log (pure b) (pure b) post :=
  fun s hs hlog => ⟨rfl, hs, List.prefix_rfl, h s.log hlog⟩

protected theorem throw (reason : Stop) :
    Observes builtins log (throw reason) (throw reason) post :=
  fun _ hs _ => ⟨rfl, hs, List.prefix_rfl⟩

/-- What follows may count on what the log says by then. -/
theorem bind {x : Monkey.Run α} {y : Run α} {f : α → Monkey.Run β} {g : α → Run β}
    (hx : Observes builtins log x y mid)
    (hf : ∀ log' a, log <+: log' → mid log' a → Observes builtins log' (f a) (g a) post) :
    Observes builtins log (x >>= f) (y >>= g) post := by
  intro s hs hlog
  have hrun := hx s hs hlog
  cases hy : y s with
  | ok a t =>
    rw [hy] at hrun
    obtain ⟨hx', ht, hle, ha⟩ := hrun
    rw [bind_run_ok hy, bind_run_ok hx']
    have hrest := hf t.log a (hlog.trans hle) ha t ht List.prefix_rfl
    cases hg : g a t with
    | ok b u =>
      rw [hg] at hrest
      exact ⟨hrest.1, hrest.2.1, hle.trans hrest.2.2.1, hrest.2.2.2⟩
    | error reason u =>
      rw [hg] at hrest
      exact ⟨hrest.1, hrest.2.1, hle.trans hrest.2.2⟩
  | error reason t =>
    rw [hy] at hrun
    rw [bind_run_error hy, bind_run_error hrun.1]
    exact ⟨rfl, hrun.2⟩

theorem ite {c : Prop} [Decidable c] {x x' : Monkey.Run β} {y y' : Run β}
    (hx : Observes builtins log x y post) (hx' : Observes builtins log x' y' post) :
    Observes builtins log (if c then x else x') (if c then y else y') post := by
  by_cases h : c
  · rwa [if_pos h, if_pos h]
  · rwa [if_neg h, if_neg h]

/-- A step that makes nothing. -/
theorem step {x : Monkey.Run β}
    (hx : ∀ log', log <+: log' → Handles (Known builtins log') x (post log')) :
    Observes builtins log x (step x) post := by
  intro s hs hlog
  have hrun := hx s.log hlog s.machine.nextObject s.machine ⟨hs.bound, Nat.le_refl _⟩
  unfold Observed.step
  cases h : x s.machine with
  | ok a m =>
    rw [h] at hrun
    exact ⟨rfl, hs.move hrun.1.1 hrun.1.2, List.prefix_rfl, hrun.2⟩
  | error reason m =>
    rw [h] at hrun
    exact ⟨rfl, hs.move hrun.1.1 hrun.1.2, List.prefix_rfl⟩

/-- A step that makes nothing, in front of others. -/
theorem step_bind {mid : α → Prop} {x : Monkey.Run α} {f : α → Monkey.Run β} {g : α → Run β}
    (hx : ∀ log', log <+: log' → Handles (Known builtins log') x mid)
    (hf : ∀ a, mid a → Observes builtins log (f a) (g a) post) :
    Observes builtins log (x >>= f) (Observed.step x >>= g) post := by
  have hstep : Observes builtins log x (Observed.step x) fun _ => mid := .step hx
  exact hstep.bind fun _ a hle ha => (hf a ha).mono hle

/-- Evaluation of a node begins with a line of its trace. -/
theorem traced {tracing : Bool} {n : Node} {x : Monkey.Run β} {y : Run β}
    (h : Observes builtins log x y post) :
    Observes builtins log (Eval.trace tracing n >>= fun _ => x)
      (Observed.step (Eval.trace tracing n) >>= fun _ => y) post :=
  step_bind (fun _ _ => .ite (.write _) (.pure trivial)) fun _ _ => h

/-- A value that the rule checks for an error before it goes on. -/
theorem checked_bind {x : Monkey.Run Value} {y : Run Value} {e : Value → β}
    {f : Value → Monkey.Run β} {g : Value → Run β} (hx : Values builtins log x y)
    (herror : ∀ log' (v : Value), v.isError → post log' (e v))
    (hf : ∀ log' v, log <+: log' → Accounts builtins log' v →
      Observes builtins log' (f v) (g v) post) :
    Observes builtins log (x >>= fun v => if v.isError then pure (e v) else f v)
      (y >>= fun v => if v.isError then pure (e v) else g v) post := by
  refine .bind hx fun log' v hle hv => ?_
  by_cases h : v.isError
  · rw [if_pos h, if_pos h]
    exact .pure fun log'' _ => herror log'' v h
  · rw [if_neg h, if_neg h]
    exact hf log' v hle (hv.resolve_left h)

/-- A value that is handed upward if it is an error. -/
theorem checked {x : Monkey.Run Value} {y : Run Value} {f : Value → Monkey.Run Value}
    {g : Value → Run Value} (hx : Values builtins log x y)
    (hf : ∀ log' v, log <+: log' → Accounts builtins log' v → Values builtins log' (f v) (g v)) :
    Values builtins log (x >>= fun v => if v.isError then pure v else f v)
      (y >>= fun v => if v.isError then pure v else g v) :=
  checked_bind (e := id) hx (fun _ _ h => .inl h) hf

end Observes

section Results

theorem Observes.value {v : Value} (h : Accounts builtins log v) :
    Values builtins log (pure v) (pure v) :=
  .pure fun _ hle => .inr (h.mono hle)

theorem Observes.plain {v : Value} (hplain : v.isPlain) (h : ∀ log, Known builtins log v) :
    Values builtins log (pure v) (pure v) :=
  .value (.plain hplain (h log))

theorem Observes.error {v : Value} (h : v.isError) : Values builtins log (pure v) (pure v) :=
  .pure fun _ _ => .inl h

/-- A last step that makes nothing. -/
theorem Observes.last {x : Monkey.Run Value}
    (hx : ∀ log', log <+: log' → Hands builtins log' x) :
    Values builtins log x (Observed.step x) :=
  Observes.step hx

/-- A step that may make a value of its kind. -/
abbrev Makes (builtins : List Builtin) (log : Log) (origin : Origin) (x : Monkey.Run Value) :
    Prop :=
  Values builtins log x (make origin x)

/-- A new value is logged with its number. -/
theorem Observes.makes_new {origin : Origin} (value : ObjectId → Value)
    (hnumber : ∀ id, (value id).number? = some id) (hmakes : ∀ id, origin.makes (value id))
    (hamong : origin.Among builtins)
    (haccounts : ∀ id log', log <+: log' → Event.made origin (value id) ∈ log' →
      Accounts builtins log' (value id)) :
    Makes builtins log origin (do pure (value (← Machine.newObject))) := by
  intro s hs hlog
  let v := value s.machine.nextObject
  let t : State := ⟨{ s.machine with nextObject := s.machine.nextObject + 1 },
    s.log ++ [.made origin v]⟩
  have hmake : make origin (do pure (value (← Machine.newObject))) s = .ok v t := by
    have hevents : (if origin.makes v then [Event.made origin v] else []) = [.made origin v] :=
      if_pos (hmakes _)
    exact congrArg (fun events => EStateM.Result.ok v (State.mk t.machine (s.log ++ events)))
      hevents
  rw [hmake]
  have hle : s.log <+: t.log := List.prefix_append s.log _
  refine ⟨rfl, hs.make (hnumber _) (hmakes _) hamong, hle, .inr ?_⟩
  exact haccounts _ t.log (hlog.trans hle) (List.mem_append_right _ (List.mem_singleton_self _))

/-- A step that makes no value of the kind. -/
theorem Observes.makes_none {origin : Origin} {x : Monkey.Run Value}
    (hx : ∀ log', log <+: log' → Handles (Known builtins log') x fun v =>
      v.Fine (Known builtins log') ∧ origin.makes v = false) :
    Makes builtins log origin x := by
  intro s hs hlog
  have hrun := hx s.log hlog s.machine.nextObject s.machine ⟨hs.bound, Nat.le_refl _⟩
  unfold make noting
  cases h : x s.machine with
  | ok v m =>
    rw [h] at hrun
    obtain ⟨⟨hbound, hnext⟩, hv, hmakes⟩ := hrun
    have hevents : s.log ++ (if origin.makes v then [Event.made origin v] else []) = s.log := by
      rw [hmakes]
      exact List.append_nil s.log
    dsimp only
    rw [hevents]
    exact ⟨rfl, hs.move hbound hnext, List.prefix_rfl, hv⟩
  | error reason m =>
    rw [h] at hrun
    exact ⟨rfl, hs.move hrun.1.1 hrun.1.2, List.prefix_rfl⟩

theorem applyBinary_values {l r : Value} (hl : Accounts builtins log l)
    (hr : Accounts builtins log r) (operator : String) :
    Values builtins log (Operator.applyBinary operator l r) (applyBinary operator l r) := by
  intro s hs hlog
  have hrun := applyBinary_hands operator l r s.machine.nextObject s.machine
    ⟨hs.bound, Nat.le_refl _⟩
  unfold applyBinary noting
  cases h : Operator.applyBinary operator l r s.machine with
  | ok v m =>
    rw [h] at hrun
    have hle : s.log <+: s.log ++ [.applied operator l r v] := List.prefix_append s.log _
    have hsound := hs.apply h (hl.mono hlog) (hr.mono hlog) hrun.1.1 hrun.1.2
    exact ⟨rfl, hsound, hle, hrun.2.imp_right (Accounts.mono hle)⟩
  | error reason m =>
    rw [h] at hrun
    exact ⟨rfl, hs.move hrun.1.1 hrun.1.2, List.prefix_rfl⟩

end Results

end Observed

end Monkey
