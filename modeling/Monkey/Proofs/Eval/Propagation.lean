import Monkey.Proofs.Eval.Abrupt
import Monkey.Proofs.Session

/-!
# Error propagation

Evaluation, where errors are values that every rule checks for, agrees with abrupt
evaluation, where they are thrown: same result, same output and same machine.  It needs that
no error is ever bound or held by another value, which evaluation in turn keeps.
-/

namespace Monkey

namespace Propagation

/-- Not an error. -/
def NoError (v : Value) : Prop := v.isError = false

theorem admits_noError : Value.Admits NoError where
  integer _ := rfl
  boolean _ := rfl
  string _ := rfl
  null := rfl
  array _ _ := rfl
  hash _ _ := rfl
  builtin _ := rfl

/-- No error is held by the value, nor is it one. -/
abbrev Sound (v : Value) : Prop := v.Everywhere NoError

theorem sound_absent : Sound .absent := .plain rfl rfl

theorem sound_null : Sound .null := .plain rfl rfl

/-- From every machine on which no error is bound, a run does what an abrupt run does: it
    gives the result in the shape of a result, the error thrown in the shape of an error, or
    stops as well; and no error is bound afterwards. -/
def Agrees {α β : Type} (shape : Except Value α → β) (post : α → Prop) (x : Run β)
    (y : Abrupt.Run α) : Prop :=
  ∀ m, Machine.Holds NoError m → match y m with
    | .ok a m' => x m = .ok (shape (.ok a)) m' ∧ m'.Holds NoError ∧ post a
    | .error (.thrown e) m' => x m = .ok (shape (.error e)) m' ∧ m'.Holds NoError ∧ e.isError
    | .error (.stopped reason) m' => x m = .error reason m' ∧ m'.Holds NoError

/-- Values and errors in one. -/
def handed : Except Value Value → Value
  | .ok v | .error v => v

namespace Agrees

variable {α β γ δ : Type} {shape : Except Value α → β} {post : α → Prop}

protected theorem pure {a : α} (h : post a) :
    Agrees shape post (pure (shape (.ok a))) (pure a) :=
  fun _ hm => ⟨rfl, hm, h⟩

theorem stop (reason : Stop) :
    Agrees shape post (throw reason) (throw (.stopped reason)) :=
  fun _ hm => ⟨rfl, hm⟩

/-- What follows a result agrees, and an error is handed on in the shape that it takes
    there. -/
theorem bind {shape' : Except Value γ → δ} {post' : γ → Prop} {x : Run β} {y : Abrupt.Run α}
    {f : β → Run δ} {g : α → Abrupt.Run γ} (hx : Agrees shape post x y)
    (herror : ∀ e, e.isError → f (shape (.error e)) = pure (shape' (.error e)))
    (hresult : ∀ a, post a → Agrees shape' post' (f (shape (.ok a))) (g a)) :
    Agrees shape' post' (x >>= f) (y >>= g) := by
  intro m hm
  have hrun := hx m hm
  cases hy : y m with
  | ok a m' =>
    rw [hy] at hrun
    rw [bind_run_ok hy, bind_run_ok hrun.1]
    exact hresult a hrun.2.2 m' hrun.2.1
  | error e m' =>
    rw [hy] at hrun
    rw [bind_run_error hy]
    cases e with
    | thrown e =>
      rw [bind_run_ok hrun.1, herror e hrun.2.2]
      exact ⟨rfl, hrun.2⟩
    | stopped reason =>
      rw [bind_run_error hrun.1]
      exact ⟨rfl, hrun.2⟩

/-- A step that makes no error. -/
theorem step_bind {x : Run γ} {f : γ → Run β} {g : γ → Abrupt.Run α} {mid : γ → Prop}
    (hx : Keeps (Machine.Holds NoError) x mid)
    (hf : ∀ c, mid c → Agrees shape post (f c) (g c)) :
    Agrees shape post (x >>= f) (Halt.step x >>= g) := by
  intro m hm
  have hrun := hx m hm
  cases h : x m with
  | ok c m' =>
    rw [h] at hrun
    rw [bind_run_ok h, bind_run_ok (Halt.step_run_ok h)]
    exact hf c hrun.2 m' hrun.1
  | error reason m' =>
    rw [h] at hrun
    rw [bind_run_error h, bind_run_error (Halt.step_run_error h)]
    exact ⟨rfl, hrun.1⟩

theorem traced {tracing : Bool} {n : Node} {x : Run β} {y : Abrupt.Run α}
    (h : Agrees shape post x y) :
    Agrees shape post (Eval.trace tracing n >>= fun _ => x)
      (Halt.step (Eval.trace tracing n) >>= fun _ => y) :=
  step_bind (trace_keeps tracing n) fun _ _ => h

theorem value {v : Value} (h : Sound v) : Agrees handed Sound (pure v) (pure v) :=
  fun _ hm => ⟨rfl, hm, h⟩

/-- A last step that makes no error. -/
theorem step {x : Run Value} (hx : Keeps (Machine.Holds NoError) x Sound) :
    Agrees handed Sound x (Halt.step x) := by
  have h : Agrees handed Sound (x >>= pure) (Halt.step x >>= pure) :=
    step_bind hx fun _ hc => value hc
  rwa [bind_pure, bind_pure] at h

theorem raise (problem : Problem) :
    Agrees handed Sound problem.raise (Abrupt.raise problem) :=
  fun _ hm => ⟨rfl, hm, rfl⟩

/-- Operators and builtins make errors only last. -/
theorem operate {x : Run Value} (hx : Keeps (Machine.Holds NoError) x (Value.Fine NoError)) :
    Agrees handed Sound x (Abrupt.operate x) := by
  have h : Agrees handed Sound (x >>= pure) (Abrupt.operate x) := by
    apply step_bind hx
    intro v hv
    by_cases he : v.isError
    · rw [if_pos he]
      exact fun _ hm => ⟨rfl, hm, he⟩
    · rw [if_neg he]
      exact value (hv.resolve_left he)
  rwa [bind_pure] at h

/-- A value that the rule checks for an error before it goes on. -/
theorem checked_bind {shape' : Except Value γ → δ} {post' : γ → Prop} {x : Run Value}
    {y : Abrupt.Run Value} {f : Value → Run δ} {g : Value → Abrupt.Run γ}
    (hx : Agrees handed Sound x y) (hf : ∀ v, Sound v → Agrees shape' post' (f v) (g v)) :
    Agrees shape' post'
      (x >>= fun v => if v.isError then pure (shape' (.error v)) else f v) (y >>= g) := by
  apply bind hx (fun e he => if_pos he)
  intro v hv
  have hne : ¬ (handed (.ok v)).isError := by
    rw [Bool.not_eq_true]
    exact hv.here
  rw [if_neg hne]
  exact hf v hv

end Agrees

/-! ## Evaluation agrees -/

variable {cx : EvalContext} {ab : Abrupt.Context}

/-- Two contexts that differ at most in how they call, and agree there. -/
structure SameContext (cx : EvalContext) (ab : Abrupt.Context) : Prop where
  setting : cx.toSetting = ab.toSetting
  call : ∀ f args, (∀ v ∈ args, Sound v) →
    Agrees handed Sound (cx.call f args) (ab.call f args)

theorem valueOfName_agrees (h : SameContext cx ab) (frame : FrameId) (name : String) :
    Agrees handed Sound (Eval.valueOfName cx frame name) (Abrupt.valueOfName ab frame name) := by
  unfold Eval.valueOfName Abrupt.valueOfName
  rw [h.setting]
  apply Agrees.step_bind (lookup_keeps frame name)
  intro v? hv
  cases v? with
  | none =>
    cases Builtin.find? ab.builtins name with
    | none => exact Agrees.raise _
    | some b => exact Agrees.value (.plain rfl rfl)
  | some v =>
    cases v with
    | absent =>
      cases Builtin.find? ab.builtins name with
      | none => exact Agrees.raise _
      | some b => exact Agrees.value (.plain rfl rfl)
    | _ => exact Agrees.value (hv _ rfl)

mutual

/-- Evaluation of a node agrees with abrupt evaluation of it. -/
theorem eval_agrees (h : SameContext cx ab) (frame : FrameId) : (n : Node) →
    Agrees handed Sound (Eval.eval cx frame n) (Abrupt.eval ab frame n)
  | .program ss _ => by
    rw [Eval.eval, Abrupt.eval, h.setting]
    apply Agrees.traced
    exact evalProgram_agrees h frame sound_absent ss
  | .exprStatement e _ => by
    rw [Eval.eval, Abrupt.eval, h.setting]
    exact Agrees.traced (eval_agrees h frame e)
  | .block ss _ => by
    rw [Eval.eval, Abrupt.eval, h.setting]
    apply Agrees.traced
    exact evalBlock_agrees h frame sound_absent ss
  | .letBinding x e _ => by
    rw [Eval.eval, Abrupt.eval, h.setting]
    apply Agrees.traced
    have heval := eval_agrees h frame e
    apply Agrees.checked_bind heval
    intro v hv
    exact Agrees.step_bind (bindName_keeps hv) fun _ _ => Agrees.value sound_absent
  | .returning e _ => by
    rw [Eval.eval, Abrupt.eval, h.setting]
    apply Agrees.traced
    have heval := eval_agrees h frame e
    apply Agrees.checked_bind heval
    intro v hv
    exact Agrees.step (Ensures.bind newObject_keeps fun _ _ => Ensures.pure _ (.returned rfl hv))
  | .integer n _ => by
    rw [Eval.eval, Abrupt.eval, h.setting]
    apply Agrees.traced
    exact Agrees.value (integer_everywhere admits_noError _)
  | .string s _ => by
    rw [Eval.eval, Abrupt.eval, h.setting]
    apply Agrees.traced
    exact Agrees.value (string_everywhere admits_noError _)
  | .boolean b _ => by
    rw [Eval.eval, Abrupt.eval, h.setting]
    apply Agrees.traced
    exact Agrees.value (boolean_everywhere admits_noError _)
  | .array es _ => by
    rw [Eval.eval, Abrupt.eval, h.setting]
    apply Agrees.traced
    refine Agrees.bind (evalAll_agrees h frame es) (fun _ _ => rfl) fun vs hvs => ?_
    exact Agrees.step (newArray_keeps admits_noError hvs)
  | .hash ps _ => by
    rw [Eval.eval, Abrupt.eval, h.setting]
    apply Agrees.traced
    refine Agrees.bind (evalPairs_agrees h frame (List.forall_mem_nil _) (List.forall_mem_nil _) ps)
      (fun _ _ => rfl) fun es hes => ?_
    exact Agrees.step (newHash_keeps admits_noError hes.1 hes.2)
  | .function xs b _ => by
    rw [Eval.eval, Abrupt.eval, h.setting]
    apply Agrees.traced
    exact Agrees.step (Ensures.bind newObject_keeps fun _ _ => Ensures.pure _ (.plain rfl rfl))
  | .identifier x => by
    rw [Eval.eval, Abrupt.eval, h.setting]
    apply Agrees.traced
    exact valueOfName_agrees h frame x.value
  | .prefixed o r _ => by
    rw [Eval.eval, Abrupt.eval, h.setting]
    apply Agrees.traced
    have heval := eval_agrees h frame r
    apply Agrees.checked_bind heval
    intro v _
    exact Agrees.operate (applyPrefix_fine admits_noError o v)
  | .binary l o r _ => by
    rw [Eval.eval, Abrupt.eval, h.setting]
    apply Agrees.traced
    have heval := eval_agrees h frame l
    apply Agrees.checked_bind heval
    intro v _
    have heval := eval_agrees h frame r
    apply Agrees.checked_bind heval
    intro w _
    exact Agrees.operate (applyBinary_fine admits_noError o v w)
  | .conditional c t a _ => by
    rw [Eval.eval, Abrupt.eval, h.setting]
    apply Agrees.traced
    have heval := eval_agrees h frame c
    apply Agrees.checked_bind heval
    intro v _
    by_cases htrue : v.isTruthy
    · rw [if_pos htrue, if_pos htrue]
      exact eval_agrees h frame t
    · rw [if_neg htrue, if_neg htrue]
      exact evalAlternative_agrees h frame a
  | .call f as _ => by
    rw [Eval.eval, Abrupt.eval, h.setting]
    apply Agrees.traced
    have heval := eval_agrees h frame f
    apply Agrees.checked_bind heval
    intro v _
    refine Agrees.bind (evalAll_agrees h frame as) (fun _ _ => rfl) fun vs hvs => ?_
    exact h.call v vs hvs
  | .index l i _ => by
    rw [Eval.eval, Abrupt.eval, h.setting]
    apply Agrees.traced
    have heval := eval_agrees h frame l
    apply Agrees.checked_bind heval
    intro v hv
    have heval := eval_agrees h frame i
    apply Agrees.checked_bind heval
    intro w _
    exact Agrees.operate (applyIndex_fine admits_noError _ hv w)
  | .bare family => by
    rw [Eval.eval, Abrupt.eval, h.setting]
    exact Agrees.traced (Agrees.raise _)

theorem evalAlternative_agrees (h : SameContext cx ab) (frame : FrameId) : (a : Option Node) →
    Agrees handed Sound (Eval.evalAlternative cx frame a) (Abrupt.evalAlternative ab frame a)
  | none => Agrees.value sound_null
  | some n => eval_agrees h frame n

theorem evalProgram_agrees (h : SameContext cx ab) (frame : FrameId) {last : Value}
    (hlast : Sound last) : (ss : List Node) →
    Agrees handed Sound (Eval.evalProgram cx frame last ss) (Abrupt.evalProgram ab frame last ss)
  | [] => Agrees.value hlast
  | s :: ss => by
    rw [Eval.evalProgram, Abrupt.evalProgram]
    refine Agrees.bind (eval_agrees h frame s) ?_ fun v hv => ?_
    · intro e he
      cases e with
      | error => rfl
      | _ => cases he
    · cases v with
      | error => cases hv.here
      | returned => exact Agrees.value hv.payload
      | _ => exact evalProgram_agrees h frame hv ss

theorem evalBlock_agrees (h : SameContext cx ab) (frame : FrameId) {last : Value}
    (hlast : Sound last) : (ss : List Node) →
    Agrees handed Sound (Eval.evalBlock cx frame last ss) (Abrupt.evalBlock ab frame last ss)
  | [] => by
    rw [Eval.evalBlock, Abrupt.evalBlock]
    refine Agrees.value ?_
    split
    · exact sound_null
    · exact hlast
  | s :: ss => by
    rw [Eval.evalBlock, Abrupt.evalBlock]
    refine Agrees.bind (eval_agrees h frame s) ?_ fun v hv => ?_
    · intro e he
      cases e with
      | error => rfl
      | _ => cases he
    · cases v with
      | error => cases hv.here
      | returned => exact Agrees.value hv
      | _ => exact evalBlock_agrees h frame hv ss

theorem evalAll_agrees (h : SameContext cx ab) (frame : FrameId) : (ns : List Node) →
    Agrees id (fun vs => ∀ v ∈ vs, Sound v) (Eval.evalAll cx frame ns) (Abrupt.evalAll ab frame ns)
  | [] => Agrees.pure (List.forall_mem_nil _)
  | n :: ns => by
    rw [Eval.evalAll, Abrupt.evalAll]
    have heval := eval_agrees h frame n
    apply Agrees.checked_bind heval
    intro v hv
    refine Agrees.bind (evalAll_agrees h frame ns) (fun _ _ => rfl) fun vs hvs => ?_
    exact Agrees.pure (List.forall_mem_cons.mpr ⟨hv, hvs⟩)

theorem evalPairs_agrees (h : SameContext cx ab) (frame : FrameId)
    {entries : Ordered HashKey (Value × Value)} (hkeys : ∀ e ∈ entries, Sound e.2.1)
    (hvalues : ∀ e ∈ entries, Sound e.2.2) : (ps : List (Node × Node)) →
    Agrees id (fun es => (∀ e ∈ es, Sound e.2.1) ∧ ∀ e ∈ es, Sound e.2.2)
      (Eval.evalPairs cx frame entries ps) (Abrupt.evalPairs ab frame entries ps)
  | [] => Agrees.pure ⟨hkeys, hvalues⟩
  | (k, v) :: ps => by
    rw [Eval.evalPairs, Abrupt.evalPairs]
    have heval := eval_agrees h frame k
    apply Agrees.checked_bind heval
    intro key hkey
    apply Agrees.step_bind (demand_keeps key)
    intro _ _
    rw [h.setting]
    by_cases hhashable : key.isHashable
    · rw [if_pos hhashable, if_pos hhashable]
      have heval := eval_agrees h frame v
      apply Agrees.checked_bind heval
      intro value hvalue
      apply Agrees.step_bind (keyOf_keeps _ key)
      intro k _
      exact evalPairs_agrees h frame (Ordered.forall_mem_insert hkey hkeys)
        (Ordered.forall_mem_insert hvalue hvalues) ps
    · rw [if_neg hhashable, if_neg hhashable]
      exact fun _ hm => ⟨rfl, hm, rfl⟩

end

/-! ## Calls agree -/

/-- Calling what is no function of the program. -/
theorem applyOther_agrees (setting : Setting) (depth : Nat) {f : Value}
    {args : List Value} (hargs : ∀ v ∈ args, Sound v)
    (hother : f.isFunction = false) :
    Agrees handed Sound (Eval.applyFunction setting depth f args)
      (Abrupt.applyFunction setting depth f args) := by
  cases f with
  | function => cases hother
  | builtin b =>
    rw [Eval.applyFunction, Abrupt.applyFunction]
    exact Agrees.operate (apply_fine admits_noError b hargs)
  | absent =>
    rw [Eval.applyFunction, Abrupt.applyFunction]
    exact Agrees.stop .absentOperand
  | _ =>
    rw [Eval.applyFunction, Abrupt.applyFunction]
    · exact Agrees.raise _
    all_goals (intros; contradiction)

/-- Calls agree, however deeply they may be nested. -/
theorem applyFunction_agrees (setting : Setting) (depth : Nat) (f : Value) (args : List Value)
    (hargs : ∀ v ∈ args, Sound v) :
    Agrees handed Sound (Eval.applyFunction setting depth f args)
      (Abrupt.applyFunction setting depth f args) := by
  induction depth generalizing f args with
  | zero =>
    cases f with
    | function id xs b frame =>
      rw [Eval.applyFunction, Abrupt.applyFunction]
      by_cases hlength : xs.length ≠ args.length
      · rw [if_pos hlength, if_pos hlength]
        exact Agrees.raise _
      · rw [if_neg hlength, if_neg hlength]
        exact Agrees.stop .callDepth
    | _ => exact applyOther_agrees setting 0 hargs rfl
  | succ depth ih =>
    cases f with
    | function id xs b frame =>
      rw [Eval.applyFunction, Abrupt.applyFunction]
      by_cases hlength : xs.length ≠ args.length
      · rw [if_pos hlength, if_pos hlength]
        exact Agrees.raise _
      · rw [if_neg hlength, if_neg hlength]
        apply Agrees.step_bind (createFrame_keeps (some frame))
        intro inner _
        apply Agrees.step_bind (bindAll_keeps xs hargs)
        intro _ _
        have hsame : SameContext ⟨setting, Eval.applyFunction setting depth⟩
            ⟨setting, Abrupt.applyFunction setting depth⟩ := ⟨rfl, ih⟩
        refine Agrees.bind (eval_agrees hsame inner b) ?_ fun v hv => ?_
        · intro e he
          cases e with
          | error => rfl
          | _ => cases he
        · exact Agrees.step (openReturn_keeps hv)
    | _ => exact applyOther_agrees setting (depth + 1) hargs rfl

/-- Top-level statements agree, up to the error that abrupt evaluation throws. -/
theorem evalProgram_agrees_top (setting : Setting) (frame : FrameId) (ss : List Node) :
    Agrees handed Sound (evalStatements setting frame ss)
      (Abrupt.evalProgram ⟨setting, Abrupt.applyFunction setting setting.callLimit⟩ frame .absent
        ss) := by
  have hsame : SameContext (Eval.contextOfDepth setting setting.callLimit)
      ⟨setting, Abrupt.applyFunction setting setting.callLimit⟩ :=
    ⟨rfl, applyFunction_agrees setting setting.callLimit⟩
  exact evalProgram_agrees hsame frame sound_absent ss

/-- Top-level statements do what abrupt evaluation does, once the error thrown is caught. -/
theorem evalStatements_eq (setting : Setting) (frame : FrameId) (ss : List Node) {m : Machine}
    (hm : m.Holds NoError) :
    evalStatements setting frame ss m = Abrupt.evalStatements setting frame ss m := by
  have hrun := evalProgram_agrees_top setting frame ss m hm
  rw [Abrupt.evalStatements]
  split at hrun
  · next heq =>
    rw [heq]
    exact hrun.1
  · next heq =>
    rw [heq]
    exact hrun.1
  · next heq =>
    rw [heq]
    exact hrun.1

/-- Top-level statements bind no error. -/
theorem evalStatements_keeps (setting : Setting) (frame : FrameId) (ss : List Node) :
    Keeps (Machine.Holds NoError) (evalStatements setting frame ss)
      (Value.Fine NoError) := by
  intro m hm
  have hrun := evalProgram_agrees_top setting frame ss m hm
  split at hrun
  · rw [hrun.1]
    exact ⟨hrun.2.1, .inr hrun.2.2⟩
  · rw [hrun.1]
    exact ⟨hrun.2.1, .inl hrun.2.2⟩
  · rw [hrun.1]
    exact ⟨hrun.2, trivial⟩

end Propagation

open Propagation

/-- In every session reached by earlier runs, running a source text does what abrupt
    evaluation does: same answer, same output, same bindings in every frame. -/
theorem run_eq_abrupt {s : Session} (hs : s.Reachable) (source : String) :
    s.run source = Abrupt.run s source := by
  have hm : s.machine.Holds NoError :=
    hs.holds fun setting frame ss _ => evalStatements_keeps setting frame ss
  cases hparse : parse source with
  | error refusal =>
    unfold Session.run Abrupt.run
    rw [hparse]
    rfl
  | ok parsed =>
    have hperform : s.machine.perform (evalStatements s.toSetting s.root parsed.statements) =
        s.machine.perform (Abrupt.evalStatements s.toSetting s.root parsed.statements) :=
      perform_congr (evalStatements_eq _ _ _ hm)
    rw [s.run_eq hparse]
    unfold Abrupt.run
    rw [hparse]
    show _ = (if _ then _ else _)
    unfold Session.evaluate
    rw [hperform]
    rfl

theorem run_eq_abrupt_started :
    (Session.start { callLimit := 100 }).Reachable ∧
      (Session.start { callLimit := 100 }).run "[puts(1), 1 + true, puts(2)]; puts(3)" =
        Abrupt.run (Session.start { callLimit := 100 })
          "[puts(1), 1 + true, puts(2)]; puts(3)" :=
  ⟨.start _, run_eq_abrupt (.start _) _⟩

end Monkey
