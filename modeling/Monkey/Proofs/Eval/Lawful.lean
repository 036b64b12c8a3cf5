import Monkey.Proofs.Eval.Law
import Monkey.Session

/-!
# Evaluation obeys every law

Whatever the law: steps that make and look at values obey it, operators and builtins obey it, and
so do the evaluation of a tree, by recursion on the tree, and calls, by induction on how deeply
they may be nested.
-/

namespace Monkey.Law

open Comparison

variable {L : Law} {w : L.World} {α β : Type} {post : L.World → α → β → Prop}

/-! ## Steps -/

/-- A new object of a kind that holds some data. -/
theorem newValue {make make' : ObjectId → Value}
    (h : ∀ w' i j, w ≤ w' → L.objects w' i j → L.Same w' (make i) (make' j)) :
    L.Values w (do pure (make (← Machine.newObject))) (do pure (make' (← Machine.newObject))) :=
  .bind (L.newObject w) fun w' i j hle hij => value (h w' i j hle hij)

theorem raise (problem : Problem) : L.Values w problem.raise problem.raise :=
  newValue fun _ _ _ _ hij => .error problem.message hij

theorem newArray {vs vs' : List Value} (h : L.AllSame w vs vs') :
    L.Values w (Machine.newArray vs) (Machine.newArray vs') :=
  newValue fun _ _ _ hle hij => .array hij (Value.Related.forall₂_mono h (kin_grows hle))

theorem newHash {es es' : Ordered HashKey (Value × Value)} (h : L.EntriesSame w es es') :
    L.Values w (Machine.newHash es) (Machine.newHash es') :=
  newValue fun _ _ _ hle hij => .hash hij (Value.Related.rel_mono h (kin_grows hle))

theorem newFunction {f g : FrameId} {xs ys : List Name} {b c : Node} (hfg : L.frames w f g)
    (hcode : L.likeness.Code L.uses xs b ys c) :
    L.Values w (Machine.newFunction xs b f) (Machine.newFunction ys c g) :=
  newValue fun _ _ _ hle hij => .function hij (L.frames_mono hle hfg) hcode

theorem newReturned {v v' : Value} (h : L.Same w v v') :
    L.Values w (Machine.newReturned v) (Machine.newReturned v') :=
  newValue fun _ _ _ hle hij => .returned hij (h.mono (kin_grows hle))

/-- Evaluation of a node begins with a line of its trace. -/
theorem traced {n n' : Node} (hn : L.likeness.node n n') {x : Run α} {y : Run β}
    (h : L.Goes w x y post) :
    L.Goes w (Eval.trace L.setting.tracing n >>= fun _ => x)
      (Eval.trace L.setting'.tracing n' >>= fun _ => y) post :=
  .andThen (L.trace w n n' hn) fun _ _ _ _ _ => h

theorem demanded {v v' : Value} (hv : L.Same w v v') {x : Run α} {y : Run β}
    (h : L.Goes w x y post) :
    L.Goes w (Operator.demand v >>= fun _ => x) (Operator.demand v' >>= fun _ => y) post := by
  have hdemand : L.Goes w (Operator.demand v) (Operator.demand v') fun _ _ _ => True :=
    .ite (by rw [hv.isAbsent_eq]) (.throw _) (.pure fun _ _ => trivial)
  exact .andThen hdemand fun _ _ _ _ _ => h

theorem bindAll {i j : FrameId} {xs ys : List Name} {us : List String} {vs vs' : List Value}
    (hij : L.Admits w i j us (xs.map Name.value)) (hxs : List.Forall₂ L.likeness.name xs ys)
    (hvs : L.AllSame w vs vs') :
    L.Goes w (Eval.bindAll i xs vs) (Eval.bindAll j ys vs') fun _ _ _ => True := by
  induction hxs generalizing vs vs' with
  | nil => exact .pure fun _ _ => trivial
  | @cons x y xs ys hx _ ih =>
    cases hvs with
    | nil => exact .pure fun _ _ => trivial
    | cons hv hvs =>
      have hname := L.bind hij.frames (hij.binds x.value (.head _)) hv
      rw [Eval.bindAll, Eval.bindAll, ← L.likeness.value_eq hx]
      refine .andThen hname fun _ _ _ _ _ => ih ?_ hvs
      exact ⟨hij.frames, hij.uses, fun z hz => hij.binds z (.tail _ hz)⟩

theorem valueOfName {i j : FrameId} {x : String} (hij : L.frames w i j) (hx : L.uses x)
    (call call' : Value → List Value → Run Value) :
    L.Values w (Eval.valueOfName ⟨L.setting, call⟩ i x)
      (Eval.valueOfName ⟨L.setting', call'⟩ j x) := by
  unfold Eval.valueOfName
  refine .bind (L.lookup hij hx) fun w' v? v'? _ hv => ?_
  -- A name without a value stands for a builtin, if there is one.
  cases Builtin.find? L.setting.builtins x with
  | none =>
    cases hv with
    | none => exact raise _
    | some hv =>
      have hsame := hv
      cases hv with
      | absent => exact raise _
      | _ => exact value hsame
  | some b =>
    cases hv with
    | none => exact value (.builtin b)
    | some hv =>
      have hsame := hv
      cases hv with
      | absent => exact value (.builtin b)
      | _ => exact value hsame

theorem openReturn {v v' : Value} (hv : L.Same w v v') :
    L.Values w (Eval.openReturn v) (Eval.openReturn v') := by
  have hsame := hv
  cases hv with
  | absent => exact .throw _
  | returned _ hv => exact value hv
  | _ => exact value hsame

/-! ## Operators -/

section Operators

variable {u u' v v' : Value}

theorem applyPrefix (operator : String) (hv : L.Same w v v') :
    L.Values w (Operator.applyPrefix operator v) (Operator.applyPrefix operator v') := by
  unfold Operator.applyPrefix
  rw [hv.isTruthy_eq, hv.typeName_eq]
  refine .ite .rfl (value (.boolean _)) (demanded hv (.ite .rfl ?_ (raise _)))
  cases hv with
  | integer n => exact value (.integer _)
  | _ => exact raise _

theorem applyIntegers (operator : String) (a b : Int64) :
    L.Values w (Operator.applyIntegers operator a b) (Operator.applyIntegers operator a b) := by
  unfold Operator.applyIntegers
  split
  case h_4 => exact .ite .rfl (raise _) (value (.integer _))
  case h_9 => exact raise _
  case h_1 | h_2 | h_3 => exact value (.integer _)
  all_goals exact value (.boolean _)

theorem applyBinary (operator : String) (hu : L.Same w u u') (hv : L.Same w v v') :
    L.Values w (Operator.applyBinary operator u v) (Operator.applyBinary operator u' v') := by
  unfold Operator.applyBinary
  rw [hu.typeName_eq, hv.typeName_eq, hu.sameObject_eq hv]
  refine demanded hu (demanded hv (.ite .rfl (raise _) ?_))
  have hsame : L.Values w
      (if operator = "==" then pure (.boolean (u'.sameObject v'))
        else if operator = "!=" then pure (.boolean !u'.sameObject v')
        else (Problem.unknownBinary u'.typeName operator v'.typeName).raise)
      (if operator = "==" then pure (.boolean (u'.sameObject v'))
        else if operator = "!=" then pure (.boolean !u'.sameObject v')
        else (Problem.unknownBinary u'.typeName operator v'.typeName).raise) :=
    .ite .rfl (value (.boolean _)) (.ite .rfl (value (.boolean _)) (raise _))
  cases hu with
  | integer a =>
    cases hv with
    | integer b => exact applyIntegers operator a b
    | _ => exact hsame
  | string s =>
    cases hv with
    | string t => exact .ite .rfl (value (.string _)) (raise _)
    | _ => exact hsame
  | _ => exact hsame

theorem getD_same {v? v'? : Option Value} (h : Option.Rel (L.Same w) v? v'?) :
    L.Same w (v?.getD .null) (v'?.getD .null) := by
  cases h with
  | none => exact .null
  | some hv => exact hv

theorem getD_snd_same {p? p'? : Option (Value × Value)}
    (h : Option.Rel (Value.RelatedTwice (L.kin w)) p? p'?) :
    L.Same w ((p?.map Prod.snd).getD .null) ((p'?.map Prod.snd).getD .null) := by
  cases h with
  | none => exact .null
  | some hpair =>
    cases hpair with
    | mk _ hvalue => exact hvalue

theorem getElem?_same {vs vs' : List Value} (h : L.AllSame w vs vs') (k : Nat) :
    Option.Rel (L.Same w) vs[k]? vs'[k]? := by
  induction h generalizing k with
  | nil => exact .none
  | cons hv _ ih =>
    cases k with
    | zero => exact .some hv
    | succ k => exact ih k

theorem elementAt_same {vs vs' : List Value} (h : L.AllSame w vs vs') (i : Int64) :
    L.Same w (Operator.elementAt vs i) (Operator.elementAt vs' i) := by
  unfold Operator.elementAt
  by_cases hi : i < 0
  · rw [if_pos hi, if_pos hi]
    exact .null
  · rw [if_neg hi, if_neg hi]
    exact getD_same (getElem?_same h _)

theorem keyOf (surrogate? : Text.Surrogates) (hv : L.Same w v v') :
    L.Goes w (Operator.keyOf surrogate? v) (Operator.keyOf surrogate? v') fun _ => Eq := by
  unfold Operator.keyOf
  rw [hv.hashKey_eq]
  cases v'.hashKey surrogate? with
  | ok key => exact .pure fun _ _ => rfl
  | error refusal => exact .throw _

theorem applyIndex (surrogate? : Text.Surrogates) (hu : L.Same w u u') (hv : L.Same w v v') :
    L.Values w (Operator.applyIndex surrogate? u v) (Operator.applyIndex surrogate? u' v') := by
  unfold Operator.applyIndex
  rw [hu.typeName_eq, hv.typeName_eq, hv.isHashable_eq]
  refine demanded hu ?_
  cases hu with
  | array _ hvs =>
    refine demanded hv ?_
    cases hv with
    | integer i => exact value (elementAt_same hvs i)
    | _ => exact raise _
  | hash _ hes =>
    refine demanded hv (.ite .rfl (.andThen (keyOf surrogate? hv) ?_) (raise _))
    rintro w' key _ hle rfl
    exact value (getD_snd_same (hes.find? key))
  | _ => exact raise _

end Operators

/-! ## Builtins -/

section Builtins

variable {vs vs' : List Value}

theorem checkTypes_eq (function : String) (h : L.AllSame w vs vs')
    (wants : List (Option String)) :
    Builtin.checkTypes function vs wants = Builtin.checkTypes function vs' wants := by
  induction h generalizing wants with
  | nil => rfl
  | cons hv _ ih =>
    match wants with
    | [] => rfl
    | none :: wants => exact ih wants
    | some want :: wants =>
      rw [Builtin.checkTypes, Builtin.checkTypes, hv.isAbsent_eq, hv.typeName_eq, ih]

theorem check_eq (function : String) (h : L.AllSame w vs vs') (wants : List (Option String)) :
    Builtin.check function vs wants = Builtin.check function vs' wants := by
  unfold Builtin.check
  rw [h.length_eq, checkTypes_eq function h]

/-- The elements of two arrays are the same, or one problem was found with both. -/
inductive ElementsSame (L : Law) (w : L.World) :
    Except Problem (List Value) → Except Problem (List Value) → Prop
  | ok {vs vs' : List Value} : L.AllSame w vs vs' → ElementsSame L w (.ok vs) (.ok vs')
  | error (p : Problem) : ElementsSame L w (.error p) (.error p)

theorem arrayArgument_same (function : String) (h : L.AllSame w vs vs')
    (wants : List (Option String)) :
    L.ElementsSame w (Builtin.arrayArgument function vs wants)
      (Builtin.arrayArgument function vs' wants) := by
  unfold Builtin.arrayArgument
  rw [check_eq function h]
  cases Builtin.check function vs' wants with
  | error p => exact .error p
  | ok _ =>
    cases h with
    | nil => exact .ok .nil
    | cons hv _ =>
      cases hv with
      | array _ helements => exact .ok helements
      | _ => exact .ok .nil

theorem printAll (function : String) (h : L.AllSame w vs vs') :
    L.Values w (Builtin.printAll function vs) (Builtin.printAll function vs') := by
  induction h with
  | nil => exact value .null
  | cons hv _ ih =>
    rw [Builtin.printAll, Builtin.printAll, hv.isWhole_eq, hv.inspect_eq]
    exact .ite .rfl (.andThen (L.write w _) fun _ _ _ _ _ => ih) (raise _)

theorem lengthOf (function : String) (h : L.AllSame w vs vs') :
    L.Values w (Builtin.lengthOf function vs) (Builtin.lengthOf function vs') := by
  unfold Builtin.lengthOf
  rw [check_eq function h]
  cases Builtin.check function vs' [none] with
  | error p => exact raise p
  | ok _ =>
    cases h with
    | nil => exact value .null
    | cons hv _ =>
      cases hv with
      | string s => exact value (.integer _)
      | array _ helements => exact value (helements.length_eq ▸ .integer _)
      | _ => exact raise _

/-- A builtin does the same with arguments that are the same. -/
theorem applyBuiltin (b : Builtin) (h : L.AllSame w vs vs') :
    L.Values w (b.apply vs) (b.apply vs') := by
  have harray := arrayArgument_same b.name h [some "ARRAY"]
  have hpush := arrayArgument_same b.name h [some "ARRAY", none]
  unfold Builtin.apply
  generalize Builtin.arrayArgument b.name vs [some "ARRAY"] = r,
    Builtin.arrayArgument b.name vs' [some "ARRAY"] = r' at harray
  generalize Builtin.arrayArgument b.name vs [some "ARRAY", none] = q,
    Builtin.arrayArgument b.name vs' [some "ARRAY", none] = q' at hpush
  cases b.action with
  | puts => exact printAll b.name h
  | len => exact lengthOf b.name h
  | first =>
    cases harray with
    | error p => exact raise p
    | ok helements =>
      refine value ?_
      cases helements with
      | nil => exact .null
      | cons hv _ => exact hv
  | last =>
    cases harray with
    | error p => exact raise p
    | ok helements =>
      simp only [List.getLast?_eq_getElem?, helements.length_eq]
      exact value (getD_same (getElem?_same helements _))
  | rest =>
    cases harray with
    | error p => exact raise p
    | ok helements =>
      cases helements with
      | nil => exact value .null
      | cons _ hrest => exact newArray hrest
  | push =>
    cases hpush with
    | error p => exact raise p
    | ok helements => exact newArray (List.rel_append helements (List.forall₂_drop 1 h))
  | refuse message => exact raise _
  | fail message => exact raise _
  | echo => exact newArray h

end Builtins

/-! ## Trees -/

/-- Calls obey a law. -/
def CallsGo (L : Law) (call call' : Value → List Value → Run Value) : Prop :=
  ∀ w f f' vs vs', L.Same w f f' → L.AllSame w vs vs' → L.Values w (call f vs) (call' f' vs')

open Node

section Trees

variable {call call' : Value → List Value → Run Value} {i j : FrameId}

mutual

/-- Where calls obey a law, so does the evaluation of trees that are alike, in frames that admit
    their names. -/
theorem eval {w : L.World} (hcall : L.CallsGo call call') : (n : Node) → {n' : Node} →
    L.likeness.node n n' → L.Admits w i j n.names n.letNames →
    L.Values w (Eval.eval ⟨L.setting, call⟩ i n) (Eval.eval ⟨L.setting', call'⟩ j n')
  | .program ss _, _, hn, h => by
    cases L.likeness.layer hn with
    | program _ _ hss =>
      rw [Eval.eval, Eval.eval]
      exact traced hn (evalProgram hcall .absent ss hss h)
  | .exprStatement e _, _, hn, h => by
    cases L.likeness.layer hn with
    | exprStatement _ _ he =>
      rw [Eval.eval, Eval.eval]
      exact traced hn (eval hcall e he h)
  | .block ss _, _, hn, h => by
    cases L.likeness.layer hn with
    | block _ _ hss =>
      rw [Eval.eval, Eval.eval]
      exact traced hn (evalBlock hcall .absent ss hss h)
  | .letBinding x e _, _, hn, h => by
    cases L.likeness.layer hn with
    | letBinding _ _ hx he =>
      rw [names, letNames] at h
      rw [Eval.eval, Eval.eval, ← L.likeness.value_eq hx]
      refine traced hn (checked (eval hcall e he h.tail) fun w' v v' hle hv => ?_)
      have hname := L.bind (h.mono hle).frames ((h.mono hle).binds x.value (.head _)) hv
      exact .bind hname fun _ _ _ _ _ => value .absent
  | .returning e _, _, hn, h => by
    cases L.likeness.layer hn with
    | returning _ _ he =>
      rw [Eval.eval, Eval.eval]
      exact traced hn (checked (eval hcall e he h) fun _ _ _ _ => newReturned)
  | .integer n _, _, hn, _ => by
    cases L.likeness.layer hn
    rw [Eval.eval, Eval.eval]
    exact traced hn (value (.integer _))
  | .string s _, _, hn, _ => by
    cases L.likeness.layer hn
    rw [Eval.eval, Eval.eval]
    exact traced hn (value (.string s))
  | .boolean b _, _, hn, _ => by
    cases L.likeness.layer hn
    rw [Eval.eval, Eval.eval]
    exact traced hn (value (.boolean b))
  | .bare _, _, hn, _ => by
    cases L.likeness.layer hn
    rw [Eval.eval, Eval.eval]
    exact traced hn (raise _)
  | .function xs b _, _, hn, h => by
    cases L.likeness.layer hn with
    | function _ _ hxs hb =>
      rw [names] at h
      rw [Eval.eval, Eval.eval]
      refine traced hn (newFunction h.frames ⟨hxs, hb, fun x hx => ?_⟩)
      exact h.uses x (List.mem_append_right _ hx)
  | .identifier x, _, hn, h => by
    cases L.likeness.layer hn with
    | identifier hx =>
      rw [Eval.eval, Eval.eval, ← L.likeness.value_eq hx]
      exact traced hn (valueOfName h.frames (h.uses x.value (.head _)) call call')
  | .array es _, _, hn, h => by
    cases L.likeness.layer hn with
    | array _ _ hes =>
      rw [Eval.eval, Eval.eval]
      refine traced hn (.bind (evalAll hcall es hes h) fun w' r r' _ hr => ?_)
      cases hr with
      | error hv => exact value hv
      | ok hvs => exact newArray hvs
  | .hash ps _, _, hn, h => by
    cases L.likeness.layer hn with
    | hash _ _ hps =>
      rw [Eval.eval, Eval.eval]
      refine traced hn (.bind (evalPairs hcall .nil ps hps h) fun w' r r' _ hr => ?_)
      cases hr with
      | error hv => exact value hv
      | ok hes => exact newHash hes
  | .prefixed o e _, _, hn, h => by
    cases L.likeness.layer hn with
    | prefixed _ _ _ he =>
      rw [Eval.eval, Eval.eval]
      exact traced hn (checked (eval hcall e he h) fun _ _ _ _ => applyPrefix o)
  | .binary e o f _, _, hn, h => by
    cases L.likeness.layer hn with
    | binary _ _ _ he hf =>
      rw [names, letNames] at h
      rw [Eval.eval, Eval.eval]
      refine traced hn (checked (eval hcall e he h.left) fun w' v v' hle hv => ?_)
      -- There may be more after the right operand; the left values are still the same.
      refine checked (eval hcall f hf (h.right.mono hle)) fun w'' u u' hle' hu => ?_
      exact applyBinary o (hv.mono (kin_grows hle')) hu
  | .conditional c q a _, _, hn, h => by
    cases L.likeness.layer hn with
    | conditional _ _ hc hq ha =>
      rw [names, letNames] at h
      rw [Eval.eval, Eval.eval]
      refine traced hn (checked (eval hcall c hc h.left) fun w' v v' hle hv => ?_)
      have hrest := h.right.mono hle
      exact .ite (by rw [hv.isTruthy_eq]) (eval hcall q hq hrest.left)
        (evalAlternative hcall a ha hrest.right)
  | .call f as _, _, hn, h => by
    cases L.likeness.layer hn with
    | call _ _ hf has =>
      rw [names, letNames] at h
      rw [Eval.eval, Eval.eval]
      refine traced hn (checked (eval hcall f hf h.left) fun w' v v' hle hv => ?_)
      refine .bind (evalAll hcall as has (h.right.mono hle)) fun w'' r r' hle' hr => ?_
      cases hr with
      | error he => exact value he
      | ok hvs => exact hcall _ _ _ _ _ (hv.mono (kin_grows hle')) hvs
  | .index e s _, _, hn, h => by
    cases L.likeness.layer hn with
    | index _ _ he hs =>
      rw [names, letNames] at h
      rw [Eval.eval, Eval.eval]
      refine traced hn (checked (eval hcall e he h.left) fun w' v v' hle hv => ?_)
      refine checked (eval hcall s hs (h.right.mono hle)) fun w'' u u' hle' hu => ?_
      exact applyIndex _ (hv.mono (kin_grows hle')) hu
termination_by structural n => n

theorem evalAlternative {w : L.World} (hcall : L.CallsGo call call') : (n? : Option Node) →
    {n'? : Option Node} → Option.Rel L.likeness.node n? n'? →
    L.Admits w i j (namesOption n?) (letNamesOption n?) →
    L.Values w (Eval.evalAlternative ⟨L.setting, call⟩ i n?)
      (Eval.evalAlternative ⟨L.setting', call'⟩ j n'?)
  | none, _, hn, _ => by
    cases hn
    exact value .null
  | some n, _, hn, h => by
    cases hn with
    | some hn => exact eval hcall n hn h
termination_by structural n? => n?

theorem evalProgram {w : L.World} (hcall : L.CallsGo call call') {last last' : Value}
    (hlast : L.Same w last last') : (ss : List Node) → {ss' : List Node} →
    List.Forall₂ L.likeness.node ss ss' → L.Admits w i j (namesAll ss) (letNamesAll ss) →
    L.Values w (Eval.evalProgram ⟨L.setting, call⟩ i last ss)
      (Eval.evalProgram ⟨L.setting', call'⟩ j last' ss')
  | [], _, hss, _ => by
    cases hss
    exact value hlast
  | s :: ss, _, hss, h => by
    cases hss with
    | cons hs hss =>
      rw [namesAll, letNamesAll] at h
      rw [Eval.evalProgram, Eval.evalProgram]
      refine .bind (eval hcall s hs h.left) fun w' v v' hle hv => ?_
      have hrest := evalProgram hcall hv ss hss (h.right.mono hle)
      have hsame := hv
      cases hv with
      | returned _ hv => exact value hv
      | error => exact value hsame
      | _ => exact hrest
termination_by structural ss => ss

theorem evalBlock {w : L.World} (hcall : L.CallsGo call call') {last last' : Value}
    (hlast : L.Same w last last') : (ss : List Node) → {ss' : List Node} →
    List.Forall₂ L.likeness.node ss ss' → L.Admits w i j (namesAll ss) (letNamesAll ss) →
    L.Values w (Eval.evalBlock ⟨L.setting, call⟩ i last ss)
      (Eval.evalBlock ⟨L.setting', call'⟩ j last' ss')
  | [], _, hss, _ => by
    cases hss
    rw [Eval.evalBlock, Eval.evalBlock, hlast.isAbsent_eq]
    by_cases habsent : last'.isAbsent
    · rw [if_pos habsent, if_pos habsent]
      exact value .null
    · rw [if_neg habsent, if_neg habsent]
      exact value hlast
  | s :: ss, _, hss, h => by
    cases hss with
    | cons hs hss =>
      rw [namesAll, letNamesAll] at h
      rw [Eval.evalBlock, Eval.evalBlock]
      refine .bind (eval hcall s hs h.left) fun w' v v' hle hv => ?_
      have hrest := evalBlock hcall hv ss hss (h.right.mono hle)
      have hsame := hv
      cases hv with
      | returned | error => exact value hsame
      | _ => exact hrest
termination_by structural ss => ss

theorem evalAll {w : L.World} (hcall : L.CallsGo call call') : (ns : List Node) →
    {ns' : List Node} → List.Forall₂ L.likeness.node ns ns' →
    L.Admits w i j (namesAll ns) (letNamesAll ns) →
    L.Goes w (Eval.evalAll ⟨L.setting, call⟩ i ns) (Eval.evalAll ⟨L.setting', call'⟩ j ns')
      (L.Given L.AllSame)
  | [], _, hns, _ => by
    cases hns
    exact .pure fun _ _ => .ok .nil
  | n :: ns, _, hns, h => by
    cases hns with
    | cons hn hns =>
      rw [namesAll, letNamesAll] at h
      rw [Eval.evalAll, Eval.evalAll]
      refine checked_bind (eval hcall n hn h.left) (fun _ _ _ _ => given_error)
        fun w' v v' hle hv => ?_
      refine .bind (evalAll hcall ns hns (h.right.mono hle)) fun w'' r r' hle' hr => ?_
      cases hr with
      | error he => exact given_error he
      | ok hvs =>
        have hall : L.AllSame w'' _ _ := .cons (hv.mono (kin_grows hle')) hvs
        exact .pure fun _ hle => .ok (Value.Related.forall₂_mono hall (kin_grows hle))
termination_by structural ns => ns

theorem evalPairs {w : L.World} (hcall : L.CallsGo call call')
    {es es' : Ordered HashKey (Value × Value)} (hes : L.EntriesSame w es es') :
    (ps : List (Node × Node)) → {ps' : List (Node × Node)} →
    List.Forall₂ (fun p p' => L.likeness.node p.1 p'.1 ∧ L.likeness.node p.2 p'.2) ps ps' →
    L.Admits w i j (namesPairs ps) (letNamesPairs ps) →
    L.Goes w (Eval.evalPairs ⟨L.setting, call⟩ i es ps)
      (Eval.evalPairs ⟨L.setting', call'⟩ j es' ps') (L.Given L.EntriesSame)
  | [], _, hps, _ => by
    cases hps
    exact .pure fun _ hle => .ok (Value.Related.rel_mono hes (kin_grows hle))
  | (k, v) :: ps, _, hps, h => by
    cases hps with
    | @cons _ p' _ _ hp hps =>
      obtain ⟨k', v'⟩ := p'
      rw [namesPairs, letNamesPairs] at h
      rw [Eval.evalPairs, Eval.evalPairs]
      refine checked_bind (eval hcall k hp.1 h.left) (fun _ _ _ _ => given_error)
        fun w' key key' hle hkey => demanded hkey ?_
      rw [hkey.isHashable_eq, hkey.typeName_eq]
      refine .ite .rfl ?_ (.bind (raise _) fun _ _ _ _ => given_error)
      have hrest := h.right.mono hle
      refine checked_bind (eval hcall v hp.2 hrest.left) (fun _ _ _ _ => given_error)
        fun w'' value value' hle' hvalue => ?_
      have hkey' := hkey.mono (kin_grows hle')
      refine .andThen (keyOf _ hkey') ?_
      rintro _ code _ - rfl
      have hentries := Value.Related.rel_mono hes (kin_grows (le_trans hle hle'))
      exact evalPairs hcall (hentries.insert code (.mk hkey' hvalue)) ps hps (hrest.right.mono hle')
termination_by structural ps => ps

end

end Trees

/-! ## Calls -/

/-- How deeply calls may be nested in two runs: as deeply in both, or deeper in the second, if the
    first is excused when it stops for it. -/
def Depths (L : Law) (depth depth' : Nat) : Prop :=
  depth = depth' ∨ depth ≤ depth' ∧ L.excused .callDepth

theorem applyOther {depth depth' : Nat} {f f' : Value} (hf : f.isFunction = false)
    (hsame : L.Same w f f') {vs vs' : List Value} (hvs : L.AllSame w vs vs') :
    L.Values w (Eval.applyFunction L.setting depth f vs)
      (Eval.applyFunction L.setting' depth' f' vs') := by
  cases hsame with
  | function => cases hf
  | builtin b =>
    rw [Eval.applyFunction, Eval.applyFunction]
    exact applyBuiltin b hvs
  | absent =>
    rw [Eval.applyFunction, Eval.applyFunction]
    exact .throw _
  | _ =>
    rw [Eval.applyFunction, Eval.applyFunction]
    · exact raise _
    all_goals nofun

/-- Calls obey every law: of functions that are the same, with arguments that are the same. -/
theorem applyFunction {w : L.World} {depth depth' : Nat} (hdepth : L.Depths depth depth')
    {f f' : Value} (hf : L.Same w f f') {vs vs' : List Value} (hvs : L.AllSame w vs vs') :
    L.Values w (Eval.applyFunction L.setting depth f vs)
      (Eval.applyFunction L.setting' depth' f' vs') := by
  -- By induction on the depth: the calls in a body may be nested one level less.
  induction depth generalizing depth' w f f' vs vs' with
  | zero =>
    have hsame := hf
    cases hf with
    | function _ _ hcode =>
      rw [Eval.applyFunction, hvs.length_eq, hcode.1.length_eq]
      cases depth' with
      | zero =>
        rw [Eval.applyFunction]
        exact .ite .rfl (raise _) (.throw _)
      | succ depth' =>
        have hexcused : L.excused .callDepth := hdepth.elim nofun And.right
        rw [Eval.applyFunction]
        exact .ite .rfl (raise _) (.excused hexcused _)
    | _ => exact applyOther rfl hsame hvs
  | succ depth ih =>
    obtain ⟨depth', rfl, hdepth'⟩ : ∃ e, depth' = e + 1 ∧ L.Depths depth e := by
      rcases hdepth with rfl | ⟨hle, hexcused⟩
      · exact ⟨depth, rfl, .inl rfl⟩
      · obtain ⟨e, rfl⟩ := Nat.exists_eq_add_of_le hle
        exact ⟨depth + e, Nat.succ_add_eq_add_succ .., .inr ⟨Nat.le_add_right .., hexcused⟩⟩
    have hsame := hf
    cases hf with
    | @function _ _ _ _ xs ys b c _ hframe hcode =>
      obtain ⟨hxs, hb, huses⟩ := hcode
      have hcall : L.CallsGo (Eval.applyFunction L.setting depth)
          (Eval.applyFunction L.setting' depth') :=
        fun _ _ _ _ _ hf hvs => ih hdepth' hf hvs
      rw [Eval.applyFunction, Eval.applyFunction, hvs.length_eq, hxs.length_eq]
      refine .ite .rfl (raise _) (.bind (L.createFrame hframe) fun w' i j hle hij => ?_)
      have hadmits : L.Admits w' i j b.names (xs.map Name.value) :=
        ⟨hij.1, huses, fun x _ => hij.2 x⟩
      have hargs := bindAll hadmits hxs (Value.Related.forall₂_mono hvs (kin_grows hle))
      refine .andThen hargs fun _ _ _ _ _ => ?_
      exact .bind (eval hcall b hb ⟨hij.1, huses, fun x _ => hij.2 x⟩) fun _ _ _ _ => openReturn
    | _ => exact applyOther rfl hsame hvs

theorem callsGo {depth depth' : Nat} (hdepth : L.Depths depth depth') :
    L.CallsGo (Eval.applyFunction L.setting depth) (Eval.applyFunction L.setting' depth') :=
  fun _ _ _ _ _ hf hvs => applyFunction hdepth hf hvs

/-- The evaluation of statements obeys every law. -/
theorem evalStatements {w : L.World} {i j : FrameId} {ss ss' : List Node}
    (hdepth : L.Depths L.setting.callLimit L.setting'.callLimit)
    (hss : List.Forall₂ L.likeness.node ss ss')
    (h : L.Admits w i j (namesAll ss) (letNamesAll ss)) :
    L.Values w (Monkey.evalStatements L.setting i ss) (Monkey.evalStatements L.setting' j ss') :=
  evalProgram (callsGo hdepth) .absent ss hss h

end Monkey.Law
