import Monkey.Proofs.Eval.Mirrors
import Monkey.Proofs.Eval.NonLocal
import Monkey.Proofs.Node.Placement

/-!
# Early returns as jumps

Evaluation, where an early return is a value that blocks hand upward and calls open, agrees
with evaluation where it is a jump: same result, same output and same machine.  It needs
that conditionals with return statements stand as statements, in the program and in the
bodies of all functions in reach, which evaluation keeps.
-/

namespace Monkey

namespace NonLocal

open Grammar (Fits PartsFit)
open Halt (step)

/-- No early return, and no function whose body has a conditional out of place. -/
def Placed : Value → Prop
  | .returned .. => False
  | .function _ _ body _ => Fits .block body ∧ body.inPlace
  | _ => True

theorem admits_placed : Value.Admits Placed :=
  ⟨fun _ => trivial, fun _ => trivial, fun _ => trivial, trivial, fun _ _ => trivial,
    fun _ _ => trivial, fun _ => trivial⟩

/-- There is no early return in a value, and functions have their conditionals in place. -/
abbrev Sound (v : Value) : Prop := v.Everywhere Placed

theorem sound_absent : Sound .absent := .plain rfl trivial

theorem sound_null : Sound .null := .plain rfl trivial

theorem sound_of_fine {v : Value} (h : v.Fine Placed) : Sound v :=
  h.everywhere fun _ _ => trivial

/-- How a value to jump with is handed upward: an error as it is, any other as an early
    return. -/
inductive Carried : Value → Value → Prop
  | error {v : Value} : v.isError → Carried v v
  | returned {id : ObjectId} {v : Value} : Sound v → Carried v (.returned id v)

/-- Evaluation does what evaluation with jumps does, on machines where only sound values are
    bound.  Whether there may be a jump is given. -/
abbrev Exits (mayJump : Bool) (x : Monkey.Run Value) (y : Run Value) : Prop :=
  Mirrors (Machine.Holds Placed) (fun _ => True) (fun v w => mayJump ∧ Carried v w)
    (Same Sound) x y

/-- Evaluation has opened the early return where a jump is yet to land. -/
abbrev Lands (x : Monkey.Run Value) (y : Run Value) : Prop :=
  Mirrors (Machine.Holds Placed) (fun _ => True) (Same Sound) (Same Sound) x y

/-- Reading several values does what it does with jumps, and there are none. -/
abbrev Reads {α : Type} (post : α → Prop) (x : Monkey.Run (Except Value α))
    (y : Run (Except Value α)) : Prop :=
  Mirrors (Machine.Holds Placed) (fun _ => True) (fun _ _ => False)
    (Same fun r => match r with
      | .ok a => post a
      | .error e => e.isError) x y

namespace Exits

variable {b : Bool} {x : Monkey.Run Value} {y : Run Value}

theorem mono {b' : Bool} (h : Exits b x y) (hb : b → b') : Exits b' x y :=
  Mirrors.mono h (fun _ _ hv => ⟨hb hv.1, hv.2⟩) fun _ _ => id

theorem value {v : Value} (h : Sound v) : Exits b (pure v) (pure v) :=
  Mirrors.pure ⟨rfl, h⟩

theorem step (hx : Keeps (Machine.Holds Placed) x Sound) : Exits b x (step x) :=
  Mirrors.step hx fun _ hv => ⟨rfl, hv⟩

theorem fine (hx : Keeps (Machine.Holds Placed) x (Value.Fine Placed)) : Exits b x (Halt.step x) :=
  step (hx.mono fun _ => sound_of_fine)

theorem traced {tracing : Bool} {n : Node} (h : Exits b x y) :
    Exits b (Eval.trace tracing n >>= fun _ => x)
      (Halt.step (Eval.trace tracing n) >>= fun _ => y) :=
  Mirrors.step_bind (trace_keeps tracing n) fun _ _ => h

/-- An expression that is part of another, from which there is no jump. -/
theorem operand {e : Node} (h : Exits e.mayReturn x y) (hfits : Fits .expression e)
    (hplace : e.inPlace) : Exits false x y := by
  rwa [Node.mayReturn_eq_false hfits hplace] at h

variable {γ : Type} {report : Value → γ → Prop} {result : γ → γ → Prop}

/-- A value that the rule checks for an error before it goes on. -/
theorem checked_bind {handed : Value → γ} {f : Value → Monkey.Run γ} {g : Value → Run γ}
    (hx : Exits false x y) (herror : ∀ v, v.isError → result (handed v) (handed v))
    (hf : ∀ v, Sound v →
      Mirrors (Machine.Holds Placed) (fun _ => True) report result (f v) (g v)) :
    Mirrors (Machine.Holds Placed) (fun _ => True) report result
      (x >>= fun v => if v.isError then pure (handed v) else f v)
      (y >>= fun v => if v.isError then pure (handed v) else g v) := by
  refine Mirrors.checked_bind ?_ herror fun v hv _ => hf v hv
  exact Mirrors.mono hx (fun _ _ h => absurd h.1 Bool.false_ne_true) fun _ _ => id

end Exits

theorem same_of_isError {v : Value} (h : v.isError) : Same Sound v v :=
  ⟨rfl, sound_of_fine (.inl h)⟩

/-- Values that have been read, or the error in their place. -/
theorem Reads.bind {α : Type} {post : α → Prop} {b : Bool} {x : Monkey.Run (Except Value α)}
    {y : Run (Except Value α)} {f : Except Value α → Monkey.Run Value}
    {g : Except Value α → Run Value} (hx : Reads post x y)
    (herror : ∀ e, e.isError → Exits b (f (.error e)) (g (.error e)))
    (hf : ∀ a, post a → Exits b (f (.ok a)) (g (.ok a))) : Exits b (x >>= f) (y >>= g) := by
  refine Mirrors.bind hx (fun _ _ h => h.elim) ?_
  rintro _ r ⟨rfl, hr⟩
  cases r with
  | error e => exact herror e hr
  | ok a => exact hf a hr

/-- A jump lands with the value that evaluation has opened. -/
theorem Lands.exits {b : Bool} {x : Monkey.Run Value} {y : Run Value} (h : Lands x y) :
    Exits b x (landing y) := by
  intro m hm
  have hrun := h m hm
  unfold landing
  cases hy : y m with
  | ok v m' =>
    rw [hy] at hrun
    exact hrun
  | error e m' =>
    rw [hy] at hrun
    cases e with
    | thrown v => exact hrun
    | stopped reason => exact hrun

/-- A return statement makes an early return of its value, or hands its error upward. -/
theorem jump_exits {v : Value} (hv : Sound v) :
    Exits true (if v.isError then pure v else Machine.newReturned v) (jump v) := by
  unfold jump
  by_cases he : v.isError
  · rw [if_pos he, if_pos he]
    exact fun _ hm => ⟨hm, v, rfl, rfl, .error he⟩
  · rw [if_neg he, if_neg he]
    exact fun m hm => ⟨hm, .returned m.nextObject v, rfl, rfl, .returned hv⟩

/-- What a call does with the ending of a body. -/
theorem openReturn_lands {x : Monkey.Run Value} {y : Run Value} {b : Bool}
    (h : Exits b x y) :
    Lands (x >>= Eval.openReturn)
      (y >>= fun v => step (Operator.demand v) >>= fun _ => pure v) := by
  refine Mirrors.bind h (fun v w hvw => ?_) ?_
  · cases hvw.2 with
    | error he =>
      cases v with
      | error => exact Mirrors.thrown (same_of_isError he)
      | _ => cases he
    | returned hv => exact Mirrors.thrown ⟨rfl, hv⟩
  · rintro _ v ⟨rfl, hv⟩
    cases v with
    | returned => exact hv.here.elim
    | absent => exact fun _ hm => ⟨hm, rfl, trivial⟩
    | _ => exact fun _ hm => ⟨hm, _, rfl, rfl, hv⟩

/-! ## Evaluation agrees -/

variable {cx : EvalContext} {enter : Value → List Value → Run Value}

/-- Calls agree with calls in which return statements jump. -/
def CallsExit (cx : EvalContext) (enter : Value → List Value → Run Value) : Prop :=
  ∀ f args, Sound f → (∀ v ∈ args, Sound v) → Exits false (cx.call f args) (enter f args)

mutual

/-- Evaluation of a node agrees with evaluation with jumps. -/
theorem eval_exits (hc : CallsExit cx enter) (frame : FrameId) :
    (n : Node) → PartsFit n → n.partsInPlace →
    Exits n.mayReturn (Eval.eval cx frame n) (NonLocal.eval ⟨cx, enter⟩ frame n)
  | .exprStatement e t, he, h => by
    have hparts : (Node.exprStatement e t).inPlace := h
    rw [Node.inPlace_exprStatement] at hparts
    rw [Eval.eval, NonLocal.eval, Node.mayReturn]
    exact Exits.traced (eval_exits hc frame e he.parts hparts)
  | .block ss _, hss, h => by
    have h : Node.allInPlace ss := h
    rw [Eval.eval, NonLocal.eval, Node.mayReturn]
    exact Exits.traced (evalBlock_exits hc frame sound_absent ss hss h)
  | .letBinding x e _, he, h => by
    have h : e.inPlace := h
    have heval := eval_exits hc frame e he.parts (Node.partsInPlace_of_inPlace h)
    rw [Eval.eval, NonLocal.eval]
    apply Exits.traced
    refine Exits.checked_bind (heval.operand he h) (fun _ => same_of_isError) fun v hv => ?_
    exact Mirrors.step_bind (bindName_keeps hv) fun _ _ => Exits.value sound_absent
  | .returning e _, he, h => by
    have h : e.inPlace := h
    have heval := eval_exits hc frame e he.parts (Node.partsInPlace_of_inPlace h)
    rw [Eval.eval, NonLocal.eval, Node.mayReturn]
    apply Exits.traced
    refine Mirrors.bind (heval.operand he h) (fun _ _ h => absurd h.1 Bool.false_ne_true) ?_
    rintro _ v ⟨rfl, hv⟩
    exact jump_exits hv
  | .integer n _, _, _ => by
    rw [Eval.eval, NonLocal.eval]
    exact Exits.traced (Exits.value (integer_everywhere admits_placed _))
  | .string s _, _, _ => by
    rw [Eval.eval, NonLocal.eval]
    exact Exits.traced (Exits.value (string_everywhere admits_placed _))
  | .boolean b _, _, _ => by
    rw [Eval.eval, NonLocal.eval]
    exact Exits.traced (Exits.value (boolean_everywhere admits_placed _))
  | .array es _, hes, h => by
    have h : Node.allInPlace es := h
    rw [Eval.eval, NonLocal.eval]
    apply Exits.traced
    refine Reads.bind (evalAll_exits hc frame es hes h) (fun _ he => ?_) fun vs hvs => ?_
    · exact Mirrors.pure (same_of_isError he)
    · exact Exits.step (newArray_keeps admits_placed hvs)
  | .hash ps _, hps, h => by
    have h : Node.pairsInPlace ps := h
    rw [Eval.eval, NonLocal.eval]
    apply Exits.traced
    refine Reads.bind (evalPairs_exits hc frame entriesHold_nil ps hps.1 hps.2 h)
      (fun _ he => ?_) fun es hes => ?_
    · exact Mirrors.pure (same_of_isError he)
    · exact Exits.step (newHash_keeps admits_placed hes.keys hes.values)
  | .function xs b _, hb, h => by
    have h : b.inPlace := h
    rw [Eval.eval, NonLocal.eval]
    apply Exits.traced
    exact Exits.step
      (Ensures.bind newObject_keeps fun _ _ => Ensures.pure _ (.plain rfl ⟨hb, h⟩))
  | .identifier x, _, _ => by
    rw [Eval.eval, NonLocal.eval]
    exact Exits.traced (Exits.fine (valueOfName_fine admits_placed _ _ _))
  | .prefixed o r _, ⟨_, hr⟩, h => by
    have h : r.inPlace := h
    have heval := eval_exits hc frame r hr.parts (Node.partsInPlace_of_inPlace h)
    rw [Eval.eval, NonLocal.eval]
    apply Exits.traced
    refine Exits.checked_bind (heval.operand hr h) (fun _ => same_of_isError) fun v _ => ?_
    exact Exits.fine (applyPrefix_fine admits_placed _ v)
  | .binary l o r _, ⟨hl, hr⟩, h => by
    have h : l.inPlace ∧ r.inPlace := Bool.and_eq_true_iff.mp h
    have hleft := eval_exits hc frame l hl.parts (Node.partsInPlace_of_inPlace h.1)
    have hright := eval_exits hc frame r hr.parts (Node.partsInPlace_of_inPlace h.2)
    rw [Eval.eval, NonLocal.eval]
    apply Exits.traced
    refine Exits.checked_bind (hleft.operand hl h.1) (fun _ => same_of_isError) fun v _ => ?_
    refine Exits.checked_bind (hright.operand hr h.2) (fun _ => same_of_isError) fun w _ => ?_
    exact Exits.fine (applyBinary_fine admits_placed _ v w)
  | .conditional c d a _, ⟨hcond, hd, ha⟩, h => by
    rw [Node.partsInPlace, Bool.and_eq_true, Bool.and_eq_true] at h
    have heval := eval_exits hc frame c hcond.parts (Node.partsInPlace_of_inPlace h.1)
    rw [Eval.eval, NonLocal.eval, Node.mayReturn]
    apply Exits.traced
    refine Exits.checked_bind (heval.operand hcond h.1) (fun _ => same_of_isError) fun v _ => ?_
    refine Mirrors.ite (fun _ => ?_) fun _ => ?_
    · have hbranch := eval_exits hc frame d hd.parts (Node.partsInPlace_of_inPlace h.2.1)
      refine hbranch.mono fun hreturn => ?_
      exact Bool.or_eq_true_iff.mpr (.inl hreturn)
    · refine (evalAlternative_exits hc frame a ha h.2.2).mono fun hreturn => ?_
      exact Bool.or_eq_true_iff.mpr (.inr hreturn)
  | .call f as _, ⟨hf, has⟩, h => by
    have h : f.inPlace ∧ Node.allInPlace as := Bool.and_eq_true_iff.mp h
    have heval := eval_exits hc frame f hf.parts (Node.partsInPlace_of_inPlace h.1)
    rw [Eval.eval, NonLocal.eval]
    apply Exits.traced
    refine Exits.checked_bind (heval.operand hf h.1) (fun _ => same_of_isError) fun v hv => ?_
    refine Reads.bind (evalAll_exits hc frame as has h.2) (fun _ he => ?_) fun vs hvs => ?_
    · exact Mirrors.pure (same_of_isError he)
    · exact (hc v vs hv hvs).mono (absurd · Bool.false_ne_true)
  | .index l i _, ⟨hl, hi⟩, h => by
    have h : l.inPlace ∧ i.inPlace := Bool.and_eq_true_iff.mp h
    have hleft := eval_exits hc frame l hl.parts (Node.partsInPlace_of_inPlace h.1)
    have hsubscript := eval_exits hc frame i hi.parts (Node.partsInPlace_of_inPlace h.2)
    rw [Eval.eval, NonLocal.eval]
    apply Exits.traced
    refine Exits.checked_bind (hleft.operand hl h.1) (fun _ => same_of_isError) fun v hv => ?_
    refine Exits.checked_bind (hsubscript.operand hi h.2) (fun _ => same_of_isError) fun w _ => ?_
    exact Exits.fine (applyIndex_fine admits_placed _ hv w)

theorem evalAlternative_exits (hc : CallsExit cx enter) (frame : FrameId) :
    (a : Option Node) → (∀ n ∈ a, Fits .block n) → Node.alternativeInPlace a →
    Exits (Node.alternativeMayReturn a) (Eval.evalAlternative cx frame a)
      (NonLocal.evalAlternative ⟨cx, enter⟩ frame a)
  | none, _, _ => Exits.value sound_null
  | some n, hn, h => eval_exits hc frame n (hn n rfl).parts (Node.partsInPlace_of_inPlace h)

theorem evalBlock_exits (hc : CallsExit cx enter) (frame : FrameId) {last : Value}
    (hlast : Sound last) : (ss : List Node) → (∀ s ∈ ss, Fits .statement s) →
    Node.allInPlace ss →
    Exits (Node.anyMayReturn ss) (Eval.evalBlock cx frame last ss)
      (NonLocal.evalBlock ⟨cx, enter⟩ frame last ss)
  | [], _, _ => by
    rw [Eval.evalBlock, NonLocal.evalBlock]
    refine Exits.value ?_
    split
    · exact sound_null
    · exact hlast
  | s :: ss, hss, h => by
    rw [Node.allInPlace, Bool.and_eq_true] at h
    rw [List.forall_mem_cons] at hss
    rw [Eval.evalBlock, NonLocal.evalBlock, Node.anyMayReturn]
    have heval := eval_exits hc frame s hss.1.parts (Node.partsInPlace_of_inPlace h.1)
    refine Mirrors.bind heval (fun v w hvw => ?_) ?_
    · have hor := Bool.or_eq_true_iff.mpr (.inl (b := Node.anyMayReturn ss) hvw.1)
      cases hvw.2 with
      | error he =>
        cases v with
        | error => exact Mirrors.thrown ⟨hor, .error he⟩
        | _ => cases he
      | returned hv => exact Mirrors.thrown ⟨hor, .returned hv⟩
    · rintro _ v ⟨rfl, hv⟩
      have hrest := (evalBlock_exits hc frame hv ss hss.2 h.2).mono fun hreturn =>
        Bool.or_eq_true_iff.mpr (.inr (a := s.mayReturn) hreturn)
      cases v with
      | returned => exact hv.here.elim
      | error => exact Exits.value hv
      | _ => exact hrest

theorem evalAll_exits (hc : CallsExit cx enter) (frame : FrameId) :
    (ns : List Node) → (∀ n ∈ ns, Fits .expression n) → Node.allInPlace ns →
    Reads (fun vs => ∀ v ∈ vs, Sound v) (Eval.evalAll cx frame ns)
      (NonLocal.evalAll ⟨cx, enter⟩ frame ns)
  | [], _, _ => Mirrors.pure ⟨rfl, List.forall_mem_nil _⟩
  | n :: ns, hns, h => by
    rw [Node.allInPlace, Bool.and_eq_true] at h
    rw [List.forall_mem_cons] at hns
    rw [Eval.evalAll, NonLocal.evalAll]
    have heval := eval_exits hc frame n hns.1.parts (Node.partsInPlace_of_inPlace h.1)
    refine Exits.checked_bind (heval.operand hns.1 h.1) (fun _ he => ⟨rfl, he⟩) fun v hv => ?_
    refine Mirrors.bind (evalAll_exits hc frame ns hns.2 h.2) (fun _ _ h => h.elim) ?_
    rintro _ r ⟨rfl, hr⟩
    cases r with
    | error e => exact Mirrors.pure ⟨rfl, hr⟩
    | ok vs => exact Mirrors.pure ⟨rfl, List.forall_mem_cons.mpr ⟨hv, hr⟩⟩

theorem evalPairs_exits (hc : CallsExit cx enter) (frame : FrameId)
    {entries : Ordered HashKey (Value × Value)} (hentries : EntriesHold Placed entries) :
    (ps : List (Node × Node)) → (∀ p ∈ ps, Fits .expression p.1) →
    (∀ p ∈ ps, Fits .expression p.2) → Node.pairsInPlace ps →
    Reads (EntriesHold Placed) (Eval.evalPairs cx frame entries ps)
      (NonLocal.evalPairs ⟨cx, enter⟩ frame entries ps)
  | [], _, _, _ => Mirrors.pure ⟨rfl, hentries⟩
  | (k, v) :: ps, hkeys, hvalues, h => by
    rw [Node.pairsInPlace, Bool.and_eq_true, Bool.and_eq_true] at h
    rw [List.forall_mem_cons] at hkeys hvalues
    rw [Eval.evalPairs, NonLocal.evalPairs]
    have hkey := eval_exits hc frame k hkeys.1.parts (Node.partsInPlace_of_inPlace h.1.1)
    have hvalue := eval_exits hc frame v hvalues.1.parts (Node.partsInPlace_of_inPlace h.1.2)
    refine Exits.checked_bind (hkey.operand hkeys.1 h.1.1) (fun _ he => ⟨rfl, he⟩) ?_
    intro key hsound
    refine Mirrors.step_bind (demand_keeps key) fun _ _ => ?_
    refine Mirrors.ite (fun _ => ?_) fun _ =>
      Mirrors.step_bind (raise_keeps _) fun e he => Mirrors.pure ⟨rfl, he⟩
    refine Exits.checked_bind (hvalue.operand hvalues.1 h.1.2) (fun _ he => ⟨rfl, he⟩) ?_
    intro value hvsound
    refine Mirrors.step_bind (keyOf_keeps _ key) fun k _ => ?_
    exact evalPairs_exits hc frame (hentries.insert k hsound hvsound) ps hkeys.2 hvalues.2 h.2

end

theorem evalProgram_lands (hc : CallsExit cx enter) (frame : FrameId) {last : Value}
    (hlast : Sound last) (ss : List Node) (hss : ∀ s ∈ ss, Fits .statement s)
    (h : Node.allInPlace ss) :
    Lands (Eval.evalProgram cx frame last ss)
      (NonLocal.evalProgram ⟨cx, enter⟩ frame last ss) := by
  induction ss generalizing last with
  | nil => exact Mirrors.pure ⟨rfl, hlast⟩
  | cons s ss ih =>
    rw [Node.allInPlace, Bool.and_eq_true] at h
    rw [List.forall_mem_cons] at hss
    rw [Eval.evalProgram, NonLocal.evalProgram]
    have heval := eval_exits hc frame s hss.1.parts (Node.partsInPlace_of_inPlace h.1)
    refine Mirrors.bind heval (fun v w hvw => ?_) ?_
    · cases hvw.2 with
      | error he =>
        cases v with
        | error => exact Mirrors.thrown (same_of_isError he)
        | _ => cases he
      | returned hv => exact Mirrors.thrown ⟨rfl, hv⟩
    · rintro _ v ⟨rfl, hv⟩
      cases v with
      | returned => exact hv.here.elim
      | error => exact Mirrors.pure ⟨rfl, hv⟩
      | _ => exact ih hv hss.2 h.2

/-! ## Calls agree -/

/-- Calling what is no function of the program. -/
theorem applyOther_exits (setting : Setting) (depth : Nat) {f : Value} {args : List Value}
    (hargs : ∀ v ∈ args, Sound v) (hother : f.isFunction = false) :
    Exits false (Eval.applyFunction setting depth f args)
      (NonLocal.applyFunction setting depth f args) := by
  cases f with
  | function => cases hother
  | builtin b =>
    rw [Eval.applyFunction, NonLocal.applyFunction]
    exact Exits.fine (apply_fine admits_placed b hargs)
  | absent =>
    rw [Eval.applyFunction, NonLocal.applyFunction]
    exact Mirrors.stop trivial
  | _ =>
    rw [Eval.applyFunction, NonLocal.applyFunction]
    · exact Exits.fine (raise_fine _)
    all_goals (intros; contradiction)

/-- Calls agree, however deeply they may be nested. -/
theorem applyFunction_exits (setting : Setting) (depth : Nat) :
    CallsExit (Eval.contextOfDepth setting depth) (NonLocal.applyFunction setting depth) := by
  induction depth with
  | zero =>
    intro f args hf hargs
    cases f with
    | function id xs b frame =>
      show Exits false (Eval.applyFunction _ _ _ _) _
      rw [Eval.applyFunction, NonLocal.applyFunction]
      exact Mirrors.ite (fun _ => Exits.fine (raise_fine _)) fun _ => Mirrors.stop trivial
    | _ => exact applyOther_exits setting 0 hargs rfl
  | succ depth ih =>
    intro f args hf hargs
    cases f with
    | function id xs b frame =>
      obtain ⟨hfits, hplace⟩ : Fits .block b ∧ b.inPlace := hf.here
      show Exits false (Eval.applyFunction _ _ _ _) _
      rw [Eval.applyFunction, NonLocal.applyFunction]
      refine Mirrors.ite (fun _ => Exits.fine (raise_fine _)) fun _ => ?_
      refine Mirrors.step_bind (createFrame_keeps (some frame)) fun inner _ => ?_
      refine Mirrors.step_bind (bindAll_keeps xs hargs) fun _ _ => ?_
      have hbody := eval_exits ih inner b hfits.parts (Node.partsInPlace_of_inPlace hplace)
      exact (openReturn_lands hbody).exits
    | _ => exact applyOther_exits setting (depth + 1) hargs rfl

variable {setting : Setting} {frame : FrameId} {ss : List Node}

/-- Parsed statements with their conditionals in place. -/
structure InPlace (ss : List Node) : Prop where
  fits : ∀ s ∈ ss, Fits .statement s
  inPlace : Node.allInPlace ss

/-- Top-level statements agree, up to the jump that ends the program. -/
theorem evalProgram_lands_top (setting : Setting) (frame : FrameId) (h : InPlace ss) :
    Lands (Monkey.evalStatements setting frame ss)
      (NonLocal.evalProgram ⟨Eval.contextOfDepth setting setting.callLimit,
        NonLocal.applyFunction setting setting.callLimit⟩ frame .absent ss) :=
  evalProgram_lands (applyFunction_exits setting setting.callLimit) frame sound_absent ss
    h.fits h.inPlace

/-- Top-level statements do what they do with jumps. -/
theorem evalStatements_eq (h : InPlace ss) {m : Machine} (hm : m.Holds Placed) :
    Monkey.evalStatements setting frame ss m = NonLocal.evalStatements setting frame ss m := by
  have hrun := evalProgram_lands_top setting frame h m hm
  rw [NonLocal.evalStatements]
  split at hrun
  · next heq =>
    obtain ⟨-, v, hv, rfl, -⟩ := hrun
    rw [heq, hv]
  · next heq =>
    obtain ⟨-, v, hv, rfl, -⟩ := hrun
    rw [heq, hv]
  · next heq =>
    rw [heq]
    exact hrun.2.1

/-- Top-level statements bind no early return, and no function with a conditional out of
    place. -/
theorem evalStatements_keeps (h : InPlace ss) :
    Keeps (Machine.Holds Placed) (Monkey.evalStatements setting frame ss) Sound := by
  intro m hm
  have hrun := evalProgram_lands_top setting frame h m hm
  split at hrun
  · obtain ⟨hm', v, hv, rfl, hsound⟩ := hrun
    rw [hv]
    exact ⟨hm', hsound⟩
  · obtain ⟨hm', v, hv, rfl, hsound⟩ := hrun
    rw [hv]
    exact ⟨hm', hsound⟩
  · rw [hrun.2.1]
    exact ⟨hrun.1, trivial⟩

end NonLocal

open NonLocal

/-- In a session of programs whose conditionals with return statements stand as statements, a
    run of such a program does what evaluation does in which a return statement jumps out of
    the call around it: same answer, same output, same bindings in every frame. -/
theorem run_eq_nonLocal {s : Session} (hs : s.ReachedBy fun ss => Node.allInPlace ss)
    {source : String} (hsource : ∀ p, parse source = .ok p → Node.allInPlace p.statements) :
    s.run source = NonLocal.run s source := by
  have hplace : s.ReachedBy InPlace :=
    hs.mono fun source p hparse h => ⟨Parser.parse_fits hparse, h⟩
  have hm : s.machine.Holds Placed :=
    hplace.holds fun setting frame ss h => evalStatements_keeps h
  rw [← Session.runBy_evalStatements]
  refine Session.runBy_congr fun p hparse => ?_
  exact evalStatements_eq ⟨Parser.parse_fits hparse, hsource p hparse⟩ hm

/-- A function of an earlier program returns from within two conditionals, and the program
    that calls it from within a third. -/
theorem run_eq_nonLocal_closure :
    let first :=
      "let f = fn(x) \x7b if (x > 1) \x7b if (x > 2) \x7b return x; \x7d return 1; \x7d 0 \x7d;"
    let second := "puts(f(3) + f(2)); if (f(0) < 1) \x7b return f(5); \x7d puts(1)"
    ∃ answer s, (Session.start { callLimit := 100 }).run first = .ok (answer, s) ∧
      (s.ReachedBy fun ss => Node.allInPlace ss) ∧
      (∀ p, parse second = .ok p → Node.allInPlace p.statements) ∧
      s.run second = NonLocal.run s second := by
  intro first second
  have hplaced : (parse first).map (fun p => Node.allInPlace p.statements) = .ok true ∧
      (parse second).map (fun p => Node.allInPlace p.statements) = .ok true := by
    unfold first second
    decide +kernel
  have hplace {source : String} {p : Parse}
      (h : (parse source).map (fun p => Node.allInPlace p.statements) = .ok true)
      (hparse : parse source = .ok p) : Node.allInPlace p.statements := by
    rw [hparse] at h
    exact Except.ok.inj h
  cases hparse : parse first with
  | error refusal =>
    rw [hparse] at hplaced
    cases hplaced.1
  | ok p =>
    obtain ⟨answer, s, hrun⟩ : ∃ answer s,
        (Session.start { callLimit := 100 }).run first = .ok (answer, s) := by
      rw [Session.run_eq _ hparse]
      split <;> exact ⟨_, _, rfl⟩
    have hs : s.ReachedBy fun ss => Node.allInPlace ss :=
      .run (.start _) hparse (hplace hplaced.1 hparse) hrun
    have hsecond : ∀ p, parse second = .ok p → Node.allInPlace p.statements :=
      fun p => hplace hplaced.2
    exact ⟨answer, s, hrun, hs, hsecond, run_eq_nonLocal hs hsecond⟩

end Monkey
