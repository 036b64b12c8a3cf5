import Monkey.Proofs.Eval.Escape
import Monkey.Proofs.Node.Discipline

/-!
# Evaluation of disciplined trees

No early return escapes from the evaluation of disciplined trees, where all function bodies
in reach are disciplined too.
-/

namespace Monkey

namespace Watched

open Halt (step)

/-- A function has a disciplined body. -/
def Fit : Value → Prop
  | .function _ _ body _ => body.disciplined
  | _ => True

theorem admits_fit : Value.Admits Fit :=
  ⟨fun _ => trivial, fun _ => trivial, fun _ => trivial, trivial, fun _ _ => trivial,
    fun _ _ => trivial, fun _ => trivial⟩

theorem fit_absent : Value.absent.Everywhere Fit := .plain rfl trivial

theorem fit_null : Value.null.Everywhere Fit := .plain rfl trivial

theorem fit_of_fine {v : Value} (h : v.Fine Fit) : v.Everywhere Fit :=
  h.everywhere fun _ _ => trivial

/-- An ending with function bodies that are disciplined.  A return statement has made it only
    if that is allowed for, and there is but one. -/
def EndsIn (byReturn : Bool) : Ending → Prop
  | .value v => v.Everywhere Fit
  | .returned _ operand => byReturn ∧ EndsIn false operand

namespace EndsIn

variable {b : Bool} {e : Ending}

theorem toValue (h : EndsIn b e) : e.toValue.Everywhere Fit := by
  induction e generalizing b with
  | value v => exact h
  | returned id operand ih => exact .returned trivial (ih h.2)

theorem mono {b' : Bool} (h : EndsIn b e) (hb : b → b') : EndsIn b' e := by
  cases e with
  | value v => exact h
  | returned id operand => exact ⟨hb h.1, h.2⟩

/-- No return statement makes an error. -/
theorem of_isError {b' : Bool} (h : EndsIn b e) (herror : e.isError) : EndsIn b' e := by
  cases e with
  | value v => exact h
  | returned id operand => cases herror

theorem not_byReturn (h : EndsIn false e) : ¬ e.byReturn := by
  intro hby
  cases e with
  | value v => cases hby
  | returned id operand => cases h.1

theorem opened (h : EndsIn b e) : EndsIn false e.opened := by
  cases e with
  | value v =>
    have hv : v.Everywhere Fit := h
    cases v with
    | returned id payload => exact hv.payload
    | _ => exact hv
  | returned id operand => exact h.2

end EndsIn

/-- From every machine with disciplined function bodies, a watched run is not broken off, and
    function bodies are disciplined afterwards. -/
abbrev Quiet {α : Type} (x : Watched.Run α) (post : α → Prop) : Prop :=
  Ensures (Machine.Holds Fit) Halt.IsStop x post

namespace Quiet

variable {β : Type} {post : β → Prop}

theorem value {b : Bool} {v : Value} (h : v.Everywhere Fit) :
    Quiet (pure (.value v)) (EndsIn b) :=
  Ensures.pure (EndsIn b) (b := .value v) h

theorem step {x : Monkey.Run β} (hx : Keeps (Machine.Holds Fit) x post) :
    Quiet (step x) post := by
  intro m hm
  have hrun := hx m hm
  cases h : x m with
  | ok b m' =>
    rw [h] at hrun
    rw [Halt.step_run_ok h]
    exact hrun
  | error reason m' =>
    rw [h] at hrun
    rw [Halt.step_run_error h]
    exact ⟨hrun.1, trivial⟩

theorem valueOf {b : Bool} {x : Monkey.Run Value}
    (hx : Keeps (Machine.Holds Fit) x (Value.Fine Fit)) : Quiet (valueOf x) (EndsIn b) :=
  Ensures.bind (step hx) fun _ hv => value (fit_of_fine hv)

theorem traced {tracing : Bool} {n : Node} {x : Watched.Run β} (h : Quiet x post) :
    Quiet (Halt.step (Eval.trace tracing n) >>= fun _ => x) post :=
  Ensures.bind (step (trace_keeps tracing n)) fun _ _ => h

/-- An ending that the rule checks for an error before it goes on. -/
theorem checked_bind {b b' : Bool} {x : Watched.Run Ending} {f : Ending → Watched.Run Ending}
    (hx : Quiet x (EndsIn b)) (hf : ∀ e, EndsIn b e → Quiet (f e) (EndsIn b')) :
    Quiet (x >>= fun e => if e.isError then pure e else f e) (EndsIn b') := by
  apply Ensures.bind hx
  intro e he
  refine Ensures.ite (fun herror => ?_) fun _ => hf e he
  exact Ensures.pure _ (he.of_isError herror)

end Quiet

/-! ## Values that get to a site -/

theorem pass_quiet {e : Ending} (h : EndsIn false e) (site : Site) :
    Quiet (pass Ending.byReturn site e) (Value.Everywhere Fit) := by
  refine Ensures.ite (fun hby => ?_) fun _ => Ensures.pure _ h.toValue
  exact absurd hby h.not_byReturn

theorem passAll_quiet {es : List Ending} (h : ∀ e ∈ es, EndsIn false e) (site : Site) :
    Quiet (passAll Ending.byReturn site es) fun vs => ∀ v ∈ vs, v.Everywhere Fit := by
  refine Ensures.ite (fun hany => ?_) fun _ => Ensures.pure _ fun v hv => ?_
  · obtain ⟨e, he, hby⟩ := List.any_eq_true.mp hany
    exact absurd hby (h e he).not_byReturn
  · obtain ⟨e, he, rfl⟩ := List.mem_map.mp hv
    exact (h e he).toValue

theorem passEntries_quiet {entries : Ordered HashKey (Value × Ending)}
    (h : EntriesMeet Fit (EndsIn false) entries) :
    Quiet (passEntries Ending.byReturn entries) fun es =>
      (∀ e ∈ es, e.2.1.Everywhere Fit) ∧ ∀ e ∈ es, e.2.2.Everywhere Fit := by
  refine Ensures.ite (fun hany => ?_) fun _ => Ensures.pure _ ⟨fun v hv => ?_, fun v hv => ?_⟩
  · obtain ⟨e, he, hby⟩ := List.any_eq_true.mp hany
    exact absurd hby (h.values e he).not_byReturn
  · obtain ⟨e, he, rfl⟩ := List.mem_map.mp hv
    exact h.keys e he
  · obtain ⟨e, he, rfl⟩ := List.mem_map.mp hv
    exact (h.values e he).toValue

/-! ## Evaluation is quiet -/

variable {cx : EvalContext} {call : Value → List Value → Watched.Run Value}

/-- Calls of functions with disciplined bodies are quiet. -/
def CallsQuiet (call : Value → List Value → Watched.Run Value) : Prop :=
  ∀ f args, f.Everywhere Fit → (∀ v ∈ args, v.Everywhere Fit) →
    Quiet (call f args) (Value.Everywhere Fit)

mutual

/-- Evaluation of a disciplined node is quiet. -/
theorem eval_quiet (hc : CallsQuiet call) (frame : FrameId) : (n : Node) → n.disciplined →
    Quiet (Watched.eval ⟨cx, Ending.byReturn, call⟩ frame n) (EndsIn n.mayReturn)
  | .program ss _, h => by
    rw [Watched.eval]
    apply Quiet.traced
    have hprogram := evalProgram_quiet hc frame fit_absent ss h
    apply Ensures.bind hprogram
    intro v hv
    exact Quiet.value hv
  | .exprStatement e _, h => by
    rw [Watched.eval]
    apply Quiet.traced
    exact eval_quiet hc frame e h
  | .block ss _, h => by
    rw [Watched.eval]
    apply Quiet.traced
    exact evalBlock_quiet hc frame fit_absent ss h
  | .letBinding x e _, h => by
    rw [Node.disciplined, Bool.and_eq_true, Bool.not_eq_true'] at h
    have heval := eval_quiet hc frame e h.1
    rw [h.2] at heval
    rw [Watched.eval]
    apply Quiet.traced
    apply Quiet.checked_bind heval
    intro e he
    apply Ensures.bind (pass_quiet he _)
    intro v hv
    apply Ensures.bind (Quiet.step (bindName_keeps hv))
    intro _ _
    exact Quiet.value fit_absent
  | .returning e _, h => by
    rw [Node.disciplined, Bool.and_eq_true, Bool.not_eq_true'] at h
    have heval := eval_quiet hc frame e h.1
    rw [h.2] at heval
    rw [Watched.eval]
    apply Quiet.traced
    apply Quiet.checked_bind heval
    intro e he
    apply Ensures.bind (Quiet.step newObject_keeps)
    intro id _
    exact Ensures.pure (EndsIn _) (b := .returned id e) ⟨rfl, he⟩
  | .integer n _, _ => by
    rw [Watched.eval]
    apply Quiet.traced
    exact Quiet.value (integer_everywhere admits_fit _)
  | .string s _, _ => by
    rw [Watched.eval]
    apply Quiet.traced
    exact Quiet.value (string_everywhere admits_fit _)
  | .boolean b _, _ => by
    rw [Watched.eval]
    apply Quiet.traced
    exact Quiet.value (boolean_everywhere admits_fit _)
  | .array es _, h => by
    rw [Watched.eval]
    apply Quiet.traced
    have hall := evalAll_quiet hc frame es h
    apply Ensures.bind hall
    intro r hr
    cases r with
    | error v => exact Quiet.value hr
    | ok es =>
      apply Ensures.bind (passAll_quiet hr _)
      intro vs hvs
      exact Quiet.valueOf ((newArray_keeps admits_fit hvs).mono fun _ => .inr)
  | .hash ps _, h => by
    rw [Watched.eval]
    apply Quiet.traced
    have hpairs := evalPairs_quiet hc frame entriesMeet_nil ps h
    apply Ensures.bind hpairs
    intro r hr
    cases r with
    | error v => exact Quiet.value hr
    | ok es =>
      apply Ensures.bind (passEntries_quiet hr)
      intro es hes
      exact Quiet.valueOf ((newHash_keeps admits_fit hes.1 hes.2).mono fun _ => .inr)
  | .function xs b _, h => by
    rw [Watched.eval]
    apply Quiet.traced
    exact Quiet.valueOf
      (Ensures.bind newObject_keeps fun _ _ => Ensures.pure _ (.inr (.plain rfl h)))
  | .identifier x, _ => by
    rw [Watched.eval]
    apply Quiet.traced
    exact Quiet.valueOf (valueOfName_fine admits_fit _ _ _)
  | .prefixed o r _, h => by
    rw [Watched.eval]
    apply Quiet.traced
    have heval := eval_quiet hc frame r h
    apply Quiet.checked_bind heval
    intro e he
    exact Quiet.valueOf (applyPrefix_fine admits_fit o _)
  | .binary l o r _, h => by
    rw [Node.disciplined, Bool.and_eq_true] at h
    rw [Watched.eval]
    apply Quiet.traced
    have heval := eval_quiet hc frame l h.1
    apply Quiet.checked_bind heval
    intro e he
    have heval := eval_quiet hc frame r h.2
    apply Quiet.checked_bind heval
    intro e' he'
    exact Quiet.valueOf (applyBinary_fine admits_fit o _ _)
  | .conditional c t a _, h => by
    rw [Node.disciplined, Bool.and_eq_true, Bool.and_eq_true] at h
    rw [Watched.eval]
    apply Quiet.traced
    have heval := eval_quiet hc frame c h.1
    apply Quiet.checked_bind heval
    intro e he
    refine Ensures.ite (fun _ => ?_) fun _ => ?_
    · refine (eval_quiet hc frame t h.2.1).mono fun _ he => he.mono fun h => ?_
      exact Bool.or_eq_true_iff.mpr (.inl h)
    · refine (evalAlternative_quiet hc frame a h.2.2).mono fun _ he => he.mono fun h => ?_
      exact Bool.or_eq_true_iff.mpr (.inr h)
  | .call f as _, h => by
    rw [Node.disciplined, Bool.and_eq_true] at h
    rw [Watched.eval]
    apply Quiet.traced
    have heval := eval_quiet hc frame f h.1
    apply Quiet.checked_bind heval
    intro e he
    have hall := evalAll_quiet hc frame as h.2
    apply Ensures.bind hall
    intro r hr
    cases r with
    | error v => exact Quiet.value hr
    | ok es =>
      apply Ensures.bind (passAll_quiet hr _)
      intro vs hvs
      exact Ensures.bind (hc _ _ he.toValue hvs) fun v hv => Quiet.value hv
  | .index l i _, h => by
    rw [Node.disciplined, Bool.and_eq_true] at h
    rw [Watched.eval]
    apply Quiet.traced
    have heval := eval_quiet hc frame l h.1
    apply Quiet.checked_bind heval
    intro e he
    have heval := eval_quiet hc frame i h.2
    apply Quiet.checked_bind heval
    intro e' he'
    exact Quiet.valueOf (applyIndex_fine admits_fit _ he.toValue _)
  | .bare family, _ => by
    rw [Watched.eval]
    apply Quiet.traced
    exact Quiet.valueOf (raise_fine _)

theorem evalAlternative_quiet (hc : CallsQuiet call) (frame : FrameId) : (a : Option Node) →
    Node.alternativeDisciplined a →
    Quiet (Watched.evalAlternative ⟨cx, Ending.byReturn, call⟩ frame a)
      (EndsIn (Node.alternativeMayReturn a))
  | none, _ => Quiet.value fit_null
  | some n, h => eval_quiet hc frame n h

theorem evalProgram_quiet (hc : CallsQuiet call) (frame : FrameId) {last : Value}
    (hlast : last.Everywhere Fit) : (ss : List Node) → Node.allDisciplined ss →
    Quiet (Watched.evalProgram ⟨cx, Ending.byReturn, call⟩ frame last ss) (Value.Everywhere Fit)
  | [], _ => Ensures.pure _ hlast
  | s :: ss, h => by
    rw [Node.allDisciplined, Bool.and_eq_true] at h
    rw [Watched.evalProgram]
    have heval := eval_quiet hc frame s h.1
    apply Ensures.bind heval
    intro e he
    refine Ensures.ite (fun _ => ?_) fun _ => ?_
    · exact pass_quiet he.opened .outside
    apply Ensures.ite (fun _ => Ensures.pure _ he.toValue)
    intro _
    exact evalProgram_quiet hc frame he.toValue ss h.2

theorem evalBlock_quiet (hc : CallsQuiet call) (frame : FrameId) {last : Value}
    (hlast : last.Everywhere Fit) : (ss : List Node) → Node.allDisciplined ss →
    Quiet (Watched.evalBlock ⟨cx, Ending.byReturn, call⟩ frame last ss)
      (EndsIn (Node.anyMayReturn ss))
  | [], _ => by
    rw [Watched.evalBlock]
    refine Quiet.value ?_
    split
    · exact fit_null
    · exact hlast
  | s :: ss, h => by
    rw [Node.allDisciplined, Bool.and_eq_true] at h
    rw [Watched.evalBlock]
    have heval := eval_quiet hc frame s h.1
    apply Ensures.bind heval
    intro e he
    have hs : EndsIn (Node.anyMayReturn (s :: ss)) e :=
      he.mono fun h => Bool.or_eq_true_iff.mpr (.inl h)
    apply Ensures.ite (fun _ => Ensures.pure _ hs)
    intro _
    apply Ensures.ite (fun _ => Ensures.pure _ hs)
    intro _
    refine (evalBlock_quiet hc frame he.toValue ss h.2).mono fun _ he => he.mono fun h => ?_
    exact Bool.or_eq_true_iff.mpr (.inr h)

theorem evalAll_quiet (hc : CallsQuiet call) (frame : FrameId) : (ns : List Node) →
    Node.allSettled ns →
    Quiet (Watched.evalAll ⟨cx, Ending.byReturn, call⟩ frame ns)
      (ReadMeets Fit fun es => ∀ e ∈ es, EndsIn false e)
  | [], _ => Ensures.pure (ReadMeets Fit _) (b := .ok []) (List.forall_mem_nil _)
  | n :: ns, h => by
    rw [Node.allSettled, Bool.and_eq_true, Bool.and_eq_true, Bool.not_eq_true'] at h
    have hn := eval_quiet hc frame n h.1.1
    rw [h.1.2] at hn
    rw [Watched.evalAll]
    apply Ensures.bind hn
    intro e he
    refine Ensures.ite (fun _ => ?_) fun _ => ?_
    · exact Ensures.pure (ReadMeets Fit _) (b := .error _) he.toValue
    have hall := evalAll_quiet hc frame ns h.2
    apply Ensures.bind hall
    intro r hr
    cases r with
    | error v => exact Ensures.pure (ReadMeets Fit _) (b := .error v) hr
    | ok es =>
      exact Ensures.pure (ReadMeets Fit _) (b := .ok (e :: es)) (List.forall_mem_cons.mpr ⟨he, hr⟩)

theorem evalPairs_quiet (hc : CallsQuiet call) (frame : FrameId)
    {entries : Ordered HashKey (Value × Ending)}
    (hentries : EntriesMeet Fit (EndsIn false) entries) :
    (ps : List (Node × Node)) → Node.pairsSettled ps →
    Quiet (Watched.evalPairs ⟨cx, Ending.byReturn, call⟩ frame entries ps)
      (ReadMeets Fit (EntriesMeet Fit (EndsIn false)))
  | [], _ => Ensures.pure (ReadMeets Fit _) (b := .ok entries) hentries
  | (k, v) :: ps, h => by
    rw [Node.pairsSettled, Bool.and_eq_true, Bool.and_eq_true, Bool.and_eq_true,
      Bool.not_eq_true'] at h
    have hv := eval_quiet hc frame v h.1.2.1
    rw [h.1.2.2] at hv
    rw [Watched.evalPairs]
    have heval := eval_quiet hc frame k h.1.1
    apply Ensures.bind heval
    intro key hkey
    refine Ensures.ite (fun _ => ?_) fun _ => ?_
    · exact Ensures.pure (ReadMeets Fit _) (b := .error _) hkey.toValue
    apply Ensures.bind (Quiet.step (demand_keeps _))
    intro _ _
    refine Ensures.ite (fun _ => ?_) fun _ => ?_
    · apply Ensures.bind hv
      intro e he
      refine Ensures.ite (fun _ => ?_) fun _ => ?_
      · exact Ensures.pure (ReadMeets Fit _) (b := .error _) he.toValue
      apply Ensures.bind (Quiet.step (keyOf_keeps _ _))
      intro k _
      exact evalPairs_quiet hc frame (hentries.insert k hkey.toValue he) ps h.2
    · apply Ensures.bind (Quiet.step (raise_fine _))
      intro e he
      exact Ensures.pure (ReadMeets Fit _) (b := .error e) (fit_of_fine he)

end

/-! ## Calls are quiet -/

/-- Calling what is no function of the program. -/
theorem applyOther_quiet (setting : Setting) (depth : Nat) {f : Value} {args : List Value}
    (hargs : ∀ v ∈ args, v.Everywhere Fit) (hother : f.isFunction = false) :
    Quiet (Watched.applyFunction setting Ending.byReturn depth f args)
      (Value.Everywhere Fit) := by
  cases f with
  | function => cases hother
  | builtin b =>
    rw [Watched.applyFunction]
    exact Quiet.step ((apply_fine admits_fit b hargs).mono fun _ => fit_of_fine)
  | absent =>
    rw [Watched.applyFunction]
    exact Ensures.throw trivial
  | _ =>
    rw [Watched.applyFunction]
    · exact Quiet.step ((raise_fine _).mono fun _ => fit_of_fine)
    all_goals (intros; contradiction)

/-- Calls are quiet, however deeply they may be nested. -/
theorem applyFunction_quiet (setting : Setting) (depth : Nat) :
    CallsQuiet (Watched.applyFunction setting Ending.byReturn depth) := by
  induction depth with
  | zero =>
    intro f args hf hargs
    cases f with
    | function id xs b frame =>
      rw [Watched.applyFunction]
      refine Ensures.ite (fun _ => ?_) fun _ => Ensures.throw trivial
      exact Quiet.step ((raise_fine _).mono fun _ => fit_of_fine)
    | _ => exact applyOther_quiet setting 0 hargs rfl
  | succ depth ih =>
    intro f args hf hargs
    cases f with
    | function id xs b frame =>
      have hbody : b.disciplined := hf.here
      rw [Watched.applyFunction]
      refine Ensures.ite (fun _ => ?_) fun _ => ?_
      · exact Quiet.step ((raise_fine _).mono fun _ => fit_of_fine)
      apply Ensures.bind (Quiet.step (createFrame_keeps (some frame)))
      intro inner _
      apply Ensures.bind (Quiet.step (bindAll_keeps xs hargs))
      intro _ _
      apply Ensures.bind (eval_quiet ih inner b hbody)
      intro e he
      apply Ensures.ite (fun _ => pass_quiet he.opened .caller)
      intro _
      exact Quiet.step (openReturn_keeps he.toValue)
    | _ => exact applyOther_quiet setting (depth + 1) hargs rfl

theorem evalStatements_quiet (setting : Setting) (frame : FrameId) (ss : List Node)
    (hss : Node.allDisciplined ss) :
    Quiet (Watched.evalStatements setting Ending.byReturn frame ss) (Value.Everywhere Fit) :=
  evalProgram_quiet (applyFunction_quiet setting setting.callLimit) frame fit_absent ss hss

variable {s : Session}

theorem evaluate_quiet (hs : s.machine.Holds Fit) {ss : List Node}
    (hss : Node.allDisciplined ss) :
    ∃ answer t, evaluate Ending.byReturn s ss = .ok (answer, t) ∧ t.machine.Holds Fit := by
  have hrun := evalStatements_quiet s.toSetting s.root ss hss { s.machine with output := [] } hs
  unfold evaluate
  split at hrun
  · next h =>
    rw [h]
    exact ⟨_, _, rfl, hrun.1⟩
  · next e _ h =>
    cases e with
    | stopped reason =>
      rw [h]
      exact ⟨_, _, rfl, hrun.1⟩
    | thrown site => cases hrun.2

theorem run_quiet (hs : s.machine.Holds Fit) {source : String} {parsed : Parse}
    (hparse : parse source = .ok parsed) (hparsed : Node.allDisciplined parsed.statements) :
    ∃ answer t, run Ending.byReturn s source = .ok (.ok (answer, t)) ∧ t.machine.Holds Fit := by
  rw [run_eq _ _ hparse]
  split
  · obtain ⟨answer, t, h, ht⟩ := evaluate_quiet hs hparsed
    rw [h]
    exact ⟨_, _, rfl, ht⟩
  · exact ⟨_, _, rfl, hs⟩

end Watched

open Watched

/-- No early return has escaped in sessions of disciplined programs, and functions have
    disciplined bodies there. -/
theorem Session.ReachedBy.disciplined {s : Session}
    (hs : s.ReachedBy fun ss => Node.allDisciplined ss) :
    s.Contained ∧ s.machine.Holds Fit := by
  induction hs with
  | start setting =>
    exact ⟨.start setting, Heap.Everywhere.create Heap.everywhere_empty none⟩
  | @run s t source parsed answer _ hparse hparsed hrun ih =>
    obtain ⟨answer', t', hquiet, ht⟩ := run_quiet ih.2 hparse hparsed
    obtain ⟨heq, hwatched⟩ := run_alike tells_noReturn ih.1.holds source
    rw [hquiet] at heq hwatched
    have hsame := hrun.symm.trans hwatched.1
    cases hsame
    exact ⟨.run ih.1 heq, ht⟩

/-- In sessions of disciplined programs, no early return ever escapes from a disciplined
    program. -/
theorem run_disciplined {s : Session} (hs : s.ReachedBy fun ss => Node.allDisciplined ss)
    {source : String} {parsed : Parse} (hparse : parse source = .ok parsed)
    (hparsed : Node.allDisciplined parsed.statements) :
    Watched.run Ending.isSignal s source = (s.run source).map .ok := by
  obtain ⟨hcontained, hfit⟩ := hs.disciplined
  obtain ⟨answer, t, hquiet, -⟩ := run_quiet hfit hparse hparsed
  obtain ⟨heq, hwatched⟩ := run_alike tells_noReturn hcontained.holds source
  rw [hquiet] at heq hwatched
  rw [heq, hwatched.1]
  rfl

end Monkey
