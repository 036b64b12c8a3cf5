import Monkey.Proofs.Eval.ObservedSteps

/-!
# Observed evaluation of trees and sessions

Observed evaluation of a tree, and observed runs of source texts, do what evaluation and runs do,
and keep an accurate log of it.
-/

namespace Monkey

namespace Observed

variable {builtins : List Builtin} {log : Log}

/-! ## Builtins -/

theorem makes_eq_false_of_isError {origin : Origin} {v : Value} (h : v.isError) :
    origin.makes v = false := by
  cases v with
  | error =>
    cases origin with
    | evaluated n => cases n <;> rfl
    | called => rfl
  | _ => cases h

theorem called_makes_eq_false {b : Builtin} (hb : b.makesArrays = false) (args : List Value)
    (v : Value) : (Origin.called b args).makes v = false := by
  cases v with
  | array => exact hb
  | _ => rfl

/-- A call that makes no array hands on what it is given, or what this holds. -/
theorem Observes.calls_none {b : Builtin} (hb : b.makesArrays = false) {args : List Value}
    {x : Monkey.Run Value} (hx : ∀ log', log <+: log' → Hands builtins log' x) :
    Makes builtins log (.called b args) x :=
  .makes_none fun log' hle => (hx log' hle).mono fun v hv => ⟨hv, called_makes_eq_false hb args v⟩

theorem Observes.makes_problem {origin : Origin} (problem : Problem) :
    Makes builtins log origin problem.raise :=
  .makes_none fun _ _ => (Handles.raise problem).mono fun _ hv =>
    ⟨.inl hv, makes_eq_false_of_isError hv⟩

theorem Observes.calls_newArray {b : Builtin} (hb : b ∈ builtins) (hmakes : b.makesArrays)
    (args : List Value) {vs : List Value} (hvs : ∀ v ∈ vs, Accounts builtins log v) :
    Makes builtins log (.called b args) (Machine.newArray vs) :=
  .makes_new (fun id => .array id vs) (fun _ => rfl) (fun _ => hmakes) hb
    fun _ _ hle hmem => .array ⟨_, hmem⟩ fun v hv => (hvs v hv).mono hle

/-- The array that is the first argument may hand out one of its elements. -/
theorem element_hands {function : String} {args : List Value} {wants : List (Option String)}
    {elements : List Value} (hargs : ∀ v ∈ args, Accounts builtins log v)
    (h : Builtin.arrayArgument function args wants = .ok elements) {v? : Option Value}
    (hv : ∀ v ∈ v?, v ∈ elements) : Hands builtins log (pure (v?.getD .null)) :=
  .value (getD_everywhere accounts_null fun v hmem =>
    arrayArgument_everywhere hargs h v (hv v hmem))

/-- Of all calls of builtins, those that make arrays are logged. -/
theorem apply_makes {b : Builtin} (hb : b ∈ builtins) {args : List Value}
    (hargs : ∀ v ∈ args, Accounts builtins log v) :
    Makes builtins log (.called b args) (b.apply args) := by
  have hlater {log' : Log} (hle : log <+: log') : ∀ v ∈ args, Accounts builtins log' v :=
    fun v hv => (hargs v hv).mono hle
  obtain ⟨name, action⟩ := b
  unfold Builtin.apply
  cases action with
  | puts =>
    exact .calls_none rfl fun _ _ => printAll_hands name args
  | len => exact .calls_none rfl fun _ _ => lengthOf_hands _ _
  | first =>
    refine .calls_none rfl fun log' hle => ?_
    dsimp only
    split
    · exact .problem _
    · next elements h => exact element_hands (hlater hle) h fun _ => List.mem_of_mem_head?
  | last =>
    refine .calls_none rfl fun log' hle => ?_
    dsimp only
    split
    · exact .problem _
    · next elements h => exact element_hands (hlater hle) h fun _ => List.mem_of_mem_getLast?
  | rest =>
    dsimp only
    split
    · exact .makes_problem _
    · exact .makes_none fun _ _ => .pure ⟨.inr accounts_null, rfl⟩
    · next v rest h =>
      have helements := arrayArgument_everywhere hargs h
      exact .calls_newArray hb rfl args (List.forall_mem_cons.mp helements).2
  | push =>
    dsimp only
    split
    · exact .makes_problem _
    · next elements h =>
      have helements := arrayArgument_everywhere hargs h
      refine .calls_newArray hb rfl args (List.forall_mem_append.mpr ⟨helements, fun v hv => ?_⟩)
      exact hargs v (List.mem_of_mem_drop hv)
  | refuse message => exact .makes_problem _
  | fail message => exact .makes_problem _
  | echo => exact .calls_newArray hb rfl args hargs

/-! ## Evaluation -/

/-- The evaluation of several trees gave a result that meets a condition, or an error. -/
inductive Given {α : Type} (post : Log → α → Prop) (log : Log) : Except Value α → Prop
  | ok {a : α} : post log a → Given post log (.ok a)
  | error {v : Value} : v.isError → Given post log (.error v)

/-- Everything in entries is accounted for by a log. -/
abbrev EntriesAccounted (builtins : List Builtin) (log : Log)
    (entries : Ordered HashKey (Value × Value)) : Prop :=
  EntriesHold (Known builtins log) entries

theorem EntriesAccounted.mono {log' : Log} (hle : log <+: log')
    {entries : Ordered HashKey (Value × Value)} (h : EntriesAccounted builtins log entries) :
    EntriesAccounted builtins log' entries where
  keys e he := Accounts.mono hle (h.keys e he)
  values e he := Accounts.mono hle (h.values e he)

/-- Calls under observation do what calls do, with the builtins of the context. -/
structure Context.CallsObserved (cx : Context) (builtins : List Builtin) : Prop where
  builtins_eq : cx.builtins = builtins
  call : ∀ log f args, Accounts builtins log f → (∀ v ∈ args, Accounts builtins log v) →
    Values builtins log (cx.call f args) (cx.observedCall f args)

variable {cx : Context} {frame : FrameId}

/-- A value of a literal or of a return statement. -/
theorem Observes.evaluates_new {n : Node} (value : ObjectId → Value)
    (hnumber : ∀ id, (value id).number? = some id)
    (hmakes : ∀ id, (Origin.evaluated n).makes (value id))
    (haccounts : ∀ id log', log <+: log' → Event.made (.evaluated n) (value id) ∈ log' →
      Accounts builtins log' (value id)) :
    Makes builtins log (.evaluated n) (do pure (value (← Machine.newObject))) :=
  .makes_new value hnumber hmakes trivial haccounts

mutual

/-- Observed evaluation of a node is its evaluation. -/
theorem eval_observes {log : Log} (hc : cx.CallsObserved builtins) : (n : Node) →
    Values builtins log (Eval.eval cx.toEvalContext frame n) (eval cx frame n)
  | .program ss _ => by
    rw [Eval.eval, eval]
    exact .traced (evalProgram_observes hc accounts_absent ss)
  | .exprStatement e _ => by
    rw [Eval.eval, eval]
    exact .traced (eval_observes hc e)
  | .block ss _ => by
    rw [Eval.eval, eval]
    exact .traced (evalBlock_observes hc accounts_absent ss)
  | .letBinding x e _ => by
    rw [Eval.eval, eval]
    refine .traced (.checked (eval_observes hc e) fun log' v _ hv => ?_)
    refine .step_bind (fun _ hle => .bindName frame x.value (hv.mono hle)) fun _ _ => ?_
    exact .plain rfl fun _ => trivial
  | .returning e token => by
    rw [Eval.eval, eval]
    refine .traced (.checked (eval_observes hc e) fun log' v _ hv => ?_)
    exact .evaluates_new (fun id => .returned id v) (fun _ => rfl) (fun _ => rfl)
      fun _ _ hle hmem => .returned ⟨_, hmem⟩ (hv.mono hle)
  | .integer .. | .string .. | .boolean .. => by
    rw [Eval.eval, eval]
    exact .traced (.plain rfl fun _ => trivial)
  | .bare _ => by
    rw [Eval.eval, eval]
    exact .traced (.last fun _ _ => .problem _)
  | .function xs b token => by
    rw [Eval.eval, eval]
    refine .traced (.evaluates_new (fun id => .function id xs b frame) (fun _ => rfl)
      (fun _ => rfl) fun _ _ _ hmem => .plain rfl ⟨_, hmem⟩)
  | .identifier x => by
    rw [Eval.eval, eval]
    exact .traced (.last fun _ _ => valueOfName_hands hc.builtins_eq frame x.value)
  | .array es token => by
    rw [Eval.eval, eval]
    refine .traced (.bind (evalAll_observes hc es) fun log' r _ hr => ?_)
    cases hr with
    | error he => exact .error he
    | @ok vs hvs =>
      exact .evaluates_new (fun id => .array id vs) (fun _ => rfl) (fun _ => rfl)
        fun _ _ hle hmem => .array ⟨_, hmem⟩ fun v hv => (hvs v hv).mono hle
  | .hash ps token => by
    rw [Eval.eval, eval]
    refine .traced (.bind (evalPairs_observes hc entriesHold_nil ps) fun log' r _ hr => ?_)
    cases hr with
    | error he => exact .error he
    | @ok entries hentries =>
      exact .evaluates_new (fun id => .hash id entries) (fun _ => rfl) (fun _ => rfl)
        fun _ _ hle hmem => .hash ⟨_, hmem⟩ (hentries.mono hle).keys (hentries.mono hle).values
  | .prefixed o e _ => by
    rw [Eval.eval, eval]
    refine .traced (.checked (eval_observes hc e) fun _ v _ _ => ?_)
    exact .last fun _ _ => applyPrefix_hands o v
  | .binary l o r _ => by
    rw [Eval.eval, eval]
    refine .traced (.checked (eval_observes hc l) fun _ v _ hv => ?_)
    exact .checked (eval_observes hc r) fun _ w hle hw => applyBinary_values (hv.mono hle) hw o
  | .conditional c t a _ => by
    rw [Eval.eval, eval]
    refine .traced (.checked (eval_observes hc c) fun _ v _ _ => ?_)
    exact .ite (eval_observes hc t) (evalAlternative_observes hc a)
  | .call f as _ => by
    rw [Eval.eval, eval]
    refine .traced (.checked (eval_observes hc f) fun _ v _ hv => ?_)
    refine .bind (evalAll_observes hc as) fun log' r hle hr => ?_
    cases hr with
    | error he => exact .error he
    | ok hvs => exact hc.call log' v _ (hv.mono hle) hvs
  | .index l s _ => by
    rw [Eval.eval, eval]
    refine .traced (.checked (eval_observes hc l) fun _ v _ hv => ?_)
    refine .checked (eval_observes hc s) fun _ w hle _ => ?_
    exact .last fun _ hle' => applyIndex_hands _ (hv.mono (hle.trans hle')) w

theorem evalAlternative_observes {log : Log} (hc : cx.CallsObserved builtins) :
    (n? : Option Node) → Values builtins log (Eval.evalAlternative cx.toEvalContext frame n?)
      (evalAlternative cx frame n?)
  | none => .value accounts_null
  | some n => eval_observes hc n

theorem evalProgram_observes {log : Log} (hc : cx.CallsObserved builtins) {last : Value}
    (hlast : Accounts builtins log last) : (ss : List Node) →
    Values builtins log (Eval.evalProgram cx.toEvalContext frame last ss)
      (evalProgram cx frame last ss)
  | [] => .value hlast
  | s :: ss => by
    rw [Eval.evalProgram, evalProgram]
    refine .bind (eval_observes hc s) fun log' v _ hv => ?_
    cases v with
    | returned => exact .value (hv.resolve_left nofun).payload
    | error => exact .error rfl
    | _ => exact evalProgram_observes hc (hv.resolve_left nofun) ss

theorem evalBlock_observes {log : Log} (hc : cx.CallsObserved builtins) {last : Value}
    (hlast : Accounts builtins log last) : (ss : List Node) →
    Values builtins log (Eval.evalBlock cx.toEvalContext frame last ss)
      (evalBlock cx frame last ss)
  | [] => by
    rw [Eval.evalBlock, evalBlock]
    refine .value ?_
    split
    · exact accounts_null
    · exact hlast
  | s :: ss => by
    rw [Eval.evalBlock, evalBlock]
    refine .bind (eval_observes hc s) fun log' v _ hv => ?_
    cases v with
    | returned => exact .value (hv.resolve_left nofun)
    | error => exact .error rfl
    | _ => exact evalBlock_observes hc (hv.resolve_left nofun) ss

theorem evalAll_observes {log : Log} (hc : cx.CallsObserved builtins) : (ns : List Node) →
    Observes builtins log (Eval.evalAll cx.toEvalContext frame ns) (evalAll cx frame ns)
      (Given fun log' vs => ∀ v ∈ vs, Accounts builtins log' v)
  | [] => .pure fun _ _ => .ok (List.forall_mem_nil _)
  | n :: ns => by
    rw [Eval.evalAll, evalAll]
    refine .checked_bind (eval_observes hc n) (fun _ _ => .error) fun log' v _ hv => ?_
    refine .bind (evalAll_observes hc ns) fun log'' r hle hr => ?_
    cases hr with
    | error he => exact .pure fun _ _ => .error he
    | ok hvs =>
      have hall := List.forall_mem_cons.mpr ⟨hv.mono hle, hvs⟩
      exact .pure fun _ hle' => .ok fun w hw => (hall w hw).mono hle'

theorem evalPairs_observes {log : Log} (hc : cx.CallsObserved builtins)
    {entries : Ordered HashKey (Value × Value)}
    (hentries : EntriesAccounted builtins log entries) : (ps : List (Node × Node)) →
    Observes builtins log (Eval.evalPairs cx.toEvalContext frame entries ps)
      (evalPairs cx frame entries ps) (Given (EntriesAccounted builtins))
  | [] => .pure fun _ hle => .ok (hentries.mono hle)
  | (k, v) :: ps => by
    rw [Eval.evalPairs, evalPairs]
    refine .checked_bind (eval_observes hc k) (fun _ _ => .error) fun log' key hle hkey => ?_
    refine .step_bind (fun _ _ => .demand key) fun _ _ => ?_
    refine .ite ?_ ?_
    · refine .checked_bind (eval_observes hc v) (fun _ _ => .error) ?_
      intro log'' value hle' hvalue
      refine .step_bind (fun _ _ => keyOf_handles _ key) fun code _ => ?_
      have hinsert := (hentries.mono (hle.trans hle')).insert code (hkey.mono hle') hvalue
      exact evalPairs_observes hc hinsert ps
    · refine .step_bind (fun _ _ => .raise _) fun e he => ?_
      exact .pure fun _ _ => .error he

end

theorem applyOther_observes (setting : Setting) (depth : Nat) {f : Value}
    (hf : f.isFunction = false) (hknown : Accounts setting.builtins log f) {args : List Value}
    (hargs : ∀ v ∈ args, Accounts setting.builtins log v) :
    Values setting.builtins log (Eval.applyFunction setting depth f args)
      (applyFunction setting depth f args) := by
  cases f with
  | function => cases hf
  | builtin b =>
    rw [Eval.applyFunction, applyFunction]
    exact apply_makes hknown.here hargs
  | absent =>
    rw [Eval.applyFunction, applyFunction]
    exact .throw _
  | _ =>
    rw [Eval.applyFunction, applyFunction]
    · exact .last fun _ _ => .problem _
    all_goals nofun

/-- A call under observation is a call. -/
theorem applyFunction_observes (setting : Setting) (depth : Nat) {f : Value}
    (hf : Accounts setting.builtins log f) {args : List Value}
    (hargs : ∀ v ∈ args, Accounts setting.builtins log v) :
    Values setting.builtins log (Eval.applyFunction setting depth f args)
      (applyFunction setting depth f args) := by
  -- By induction on the depth: the calls in a body may be nested one level less.
  induction depth generalizing log f args with
  | zero =>
    cases f with
    | function =>
      rw [Eval.applyFunction, applyFunction]
      exact .ite (.last fun _ _ => .problem _) (.throw _)
    | _ => exact applyOther_observes setting 0 rfl hf hargs
  | succ depth ih =>
    cases f with
    | function id xs b frame =>
      rw [Eval.applyFunction, applyFunction]
      have hcall : (contextOfDepth setting depth).CallsObserved setting.builtins :=
        ⟨rfl, fun _ _ _ hf hargs => ih hf hargs⟩
      refine .ite (.last fun _ _ => .problem _) ?_
      refine .step_bind (fun _ _ => .createFrame _) fun inner _ => ?_
      have hbind {log' : Log} (hle : log <+: log') :
          Handles (Known setting.builtins log') (Eval.bindAll inner xs args) fun _ => True :=
        .bindAll inner xs fun v hv => (hargs v hv).mono hle
      refine .step_bind (fun _ => hbind) fun _ _ => ?_
      refine .bind (eval_observes hcall b) fun log' v _ hv => ?_
      exact .last fun _ hle => openReturn_hands (hv.imp_right (Accounts.mono hle))
    | _ => exact applyOther_observes setting (depth + 1) rfl hf hargs

theorem evalStatements_observes (setting : Setting) (frame : FrameId) (ss : List Node) :
    Values setting.builtins log (Monkey.evalStatements setting frame ss)
      (evalStatements setting frame ss) :=
  have hcall : (contextOfDepth setting setting.callLimit).CallsObserved setting.builtins :=
    ⟨rfl, fun _ _ _ hf hargs => applyFunction_observes setting setting.callLimit hf hargs⟩
  evalProgram_observes hcall accounts_absent ss

/-! ## Sessions -/

/-- An outcome whose result, if there is one, is an error or accounted for by a log. -/
def Reports (builtins : List Builtin) (log : Log) : Session.Outcome → Prop
  | .finished v => v.Fine (Known builtins log)
  | .stopped _ | .rejected _ => True

theorem Reports.mono {log' : Log} (hle : log <+: log') {outcome : Session.Outcome}
    (h : Reports builtins log outcome) : Reports builtins log' outcome := by
  cases outcome with
  | finished v => exact h.imp_right (Accounts.mono hle)
  | stopped | rejected => trivial

/-- What a log says about a turn: where its result and all values that are bound after it come
    from. -/
structure Tells (builtins : List Builtin) (log : Log) (t : Session.Turn) : Prop where
  result : ∀ a, t.answer = .ok a → Reports builtins log a.outcome
  bound : t.session.machine.Holds (Known builtins log)

theorem Tells.mono {log' : Log} (hle : log <+: log') {t : Session.Turn}
    (h : Tells builtins log t) : Tells builtins log' t where
  result a ha := (h.result a ha).mono hle
  bound := Heap.Everywhere.mono (Known.mono hle) h.bound

theorem Sound.clear {m : Machine} (h : Sound builtins ⟨m, log⟩) :
    Sound builtins ⟨{ m with output := [] }, log⟩ :=
  ⟨h.accurate, h.below, h.bound⟩

theorem evaluate_observes (s : Session) (hs : Sound s.builtins ⟨s.machine, log⟩)
    (ss : List Node) :
    (evaluate s log ss).1 = s.evaluate ss ∧
      Sound s.builtins ⟨(s.evaluate ss).2.machine, (evaluate s log ss).2⟩ ∧
      log <+: (evaluate s log ss).2 ∧
      Reports s.builtins (evaluate s log ss).2 (s.evaluate ss).1.outcome := by
  have hrun := evalStatements_observes s.toSetting s.root ss
    ⟨{ s.machine with output := [] }, log⟩ hs.clear List.prefix_rfl
  unfold evaluate Session.evaluate Machine.perform
  cases hy : evalStatements s.toSetting s.root ss ⟨{ s.machine with output := [] }, log⟩ with
  | ok v t =>
    rw [hy] at hrun
    obtain ⟨hx, ht, hle, hv⟩ := hrun
    rw [hx]
    exact ⟨rfl, ht.clear, hle, hv⟩
  | error reason t =>
    rw [hy] at hrun
    obtain ⟨hx, ht, hle⟩ := hrun
    rw [hx]
    exact ⟨rfl, ht.clear, hle, trivial⟩

/-- A turn under observation is a turn, and leaves an accurate log. -/
theorem turn_observes (s : Session) (hs : Sound s.builtins ⟨s.machine, log⟩) (source : String) :
    (turn s log source).1 = s.turn source ∧ (s.turn source).session.builtins = s.builtins ∧
      Sound s.builtins ⟨(s.turn source).session.machine, (turn s log source).2⟩ ∧
      log <+: (turn s log source).2 ∧
      Tells s.builtins (turn s log source).2 (s.turn source) := by
  unfold turn Session.turn
  cases hparse : parse source with
  | error refusal =>
    have hrun : s.run source = .error refusal := by
      unfold Session.run
      rw [hparse]
      rfl
    rw [hrun]
    exact ⟨rfl, rfl, hs, List.prefix_rfl, nofun, hs.bound⟩
  | ok p =>
    rw [s.run_eq hparse]
    by_cases hp : p.diagnostics.isEmpty
    · obtain ⟨heq, hsound, hle, hreports⟩ := evaluate_observes s hs p.statements
      dsimp only
      rw [if_pos hp, if_pos hp, heq]
      refine ⟨rfl, rfl, hsound, hle, ?_, hsound.bound⟩
      rintro _ ⟨⟩
      exact hreports
    · dsimp only
      rw [if_neg hp, if_neg hp]
      refine ⟨rfl, rfl, hs, List.prefix_rfl, ?_, hs.bound⟩
      rintro _ ⟨⟩
      trivial

theorem runAll_observes (s : Session) (hs : Sound s.builtins ⟨s.machine, log⟩)
    (sources : List String) :
    (runAll s log sources).1 = s.runAll sources ∧
      Accurate s.builtins (runAll s log sources).2 ∧ log <+: (runAll s log sources).2 ∧
      ∀ t ∈ s.runAll sources, Tells s.builtins (runAll s log sources).2 t := by
  induction sources generalizing s log with
  | nil => exact ⟨rfl, hs.accurate, List.prefix_rfl, List.forall_mem_nil _⟩
  | cons source rest ih =>
    obtain ⟨hturn, hbuiltins, hsound, hle, htells⟩ := turn_observes s hs source
    obtain ⟨hturns, haccurate, hle', hrest⟩ := ih (s.turn source).session (hbuiltins ▸ hsound)
    rw [hbuiltins] at haccurate hrest
    have hlog : (runAll s log (source :: rest)).2 =
        (runAll (s.turn source).session (turn s log source).2 rest).2 := by
      rw [runAll, hturn]
    rw [hlog]
    refine ⟨?_, haccurate, hle.trans hle', List.forall_mem_cons.mpr ⟨htells.mono hle', hrest⟩⟩
    rw [runAll, hturn, hturns]
    rfl

end Observed

end Monkey
