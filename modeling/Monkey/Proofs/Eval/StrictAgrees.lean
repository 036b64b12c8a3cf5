import Monkey.Proofs.Eval.Propagation
import Monkey.Proofs.Eval.StrictSteps

/-!
# Evaluation is strict

Evaluation agrees with strict evaluation, which is never broken off, on the trees that are
read from source texts, with mistakes in them or without: same result, same output and same
machine.  It needs that the values in reach are proper and that the bodies of functions are
read from source texts too, which evaluation keeps.
-/

namespace Monkey

namespace Strict

open Grammar (Fits PartsFit)

variable {surrogate? : Text.Surrogates} {v : Value} {cx : EvalContext}
  {enter : Value → List Value → Run Value}

/-! ## Trees agree -/

/-- What evaluation leaves for a node: an error, a sound value or, if the node may leave
    none, no value. -/
def Leaves (n : Node) (v : Value) : Prop := Fine v ∨ v = .absent ∧ leavesNone n

theorem leavesNone_of_fits {place : Grammar.Place} {n : Node} (h : Fits place n)
    (hplace : place ≠ .statement) : leavesNone n = false := by
  cases h with
  | letBinding | returning | exprStatement => exact absurd rfl hplace
  | _ => rfl

/-- An expression or a block leaves a value. -/
theorem Leaves.fine {place : Grammar.Place} {n : Node} (h : Leaves n v) (hfits : Fits place n)
    (hplace : place ≠ .statement) : Fine v := by
  rcases h with h | ⟨-, h⟩
  · exact h
  · rw [leavesNone_of_fits hfits hplace] at h
    cases h

/-- What a node leaves is what its rule comes to. -/
theorem Gives.node {x : Monkey.Run Value} {y : Run Value} {tracing : Bool} {n : Node}
    (h : Gives surrogate? (Leaves n) x y) :
    Gives surrogate? (Leaves n) (Eval.trace tracing n >>= fun _ => x)
      (Halt.step (Eval.trace tracing n) >>= fun _ => y >>= left n) := by
  refine Mirrors.step_bind (trace_keeps tracing n) fun _ _ => ?_
  rw [← bind_pure x]
  refine Unbroken.bind h ?_
  rintro _ v ⟨rfl, hv⟩
  have hleft : ¬ (v.isAbsent && !leavesNone n) := by
    rcases hv with hv | ⟨rfl, hn⟩
    · rw [isAbsent_of_fine hv]
      exact Bool.false_ne_true
    · rw [hn]
      exact Bool.false_ne_true
  rw [left, if_neg hleft]
  exact Gives.value hv

/-- The rule of a node that leaves a value. -/
theorem Gives.nodeValue {x : Monkey.Run Value} {y : Run Value} {tracing : Bool} {n : Node}
    (h : Gives surrogate? Fine x y) :
    Gives surrogate? (Leaves n) (Eval.trace tracing n >>= fun _ => x)
      (Halt.step (Eval.trace tracing n) >>= fun _ => y >>= left n) :=
  Gives.node (h.mono fun _ => .inl)

/-- Calls agree with strict calls. -/
def CallsAgree (cx : EvalContext) (enter : Value → List Value → Run Value) : Prop :=
  ∀ f args, Sound f → (∀ v ∈ args, Sound v) →
    Gives cx.surrogate? Fine (cx.call f args) (enter f args)

/-- The values in a list that was read are those read before and those read now, or the list
    is made of the error. -/
def Reads (read vs : List Value) : Except Value (List Value) → Prop
  | .ok ws => vs = read ++ ws ∧ ∀ w ∈ ws, Sound w
  | .error e => vs = [e] ∧ e.isError

/-- What follows the reading of a list tells an error from values by the list. -/
theorem Reads.bind {x : Monkey.Run (Except Value (List Value))} {y : Run (List Value)}
    {f : List Value → Monkey.Run Value} {g : List Value → Run Value}
    (hx : Unbroken surrogate? (Reads []) x y)
    (hf : ∀ vs, (∀ v ∈ vs, Sound v) → Gives surrogate? Fine (f vs) (g vs)) :
    Gives surrogate? Fine
      (x >>= fun r => match r with
        | .error e => pure e
        | .ok vs => f vs)
      (y >>= fun vs => match signalled? vs with
        | some e => pure e
        | none => g vs) := by
  refine Unbroken.bind hx fun vs r hr => ?_
  cases r with
  | error e =>
    obtain ⟨rfl, he⟩ := hr
    rw [signalled?_of_isError he]
    exact Gives.value (.inl he)
  | ok ws =>
    obtain ⟨rfl, hws⟩ := hr
    rw [signalled?_of_sound hws]
    exact hf vs hws

/-- Entries of a hash with sound keys and values, or the error in their place. -/
def EntriesRead : Except Value (Ordered HashKey (Value × Value)) → Prop
  | .ok entries => EntriesHold Proper entries
  | .error e => e.isError

mutual

/-- Evaluation of a node is strict. -/
theorem eval_gives (hc : CallsAgree cx enter) (frame : FrameId) :
    (n : Node) → PartsFit n →
    Gives cx.surrogate? (Leaves n) (Eval.eval cx frame n) (Strict.eval ⟨cx, enter⟩ frame n)
  | .exprStatement e _, he => by
    rw [Eval.eval, Strict.eval]
    exact Gives.nodeValue (operand_gives hc frame e he)
  | .block ss _, hss => by
    rw [Eval.eval, Strict.eval]
    exact Gives.nodeValue (evalBlock_gives hc frame (.inr rfl) ss hss)
  | .letBinding x e _, he => by
    rw [Eval.eval, Strict.eval]
    apply Gives.node
    refine Gives.checked_bind (operand_gives hc frame e he) (fun v hv => ⟨rfl, .inl (.inl hv)⟩) ?_
    intro v hv
    rw [keep_bind (Bool.eq_false_iff.mp (isError_of_sound hv))]
    exact Mirrors.step_bind (bindName_keeps hv) fun _ _ => Gives.value (.inr ⟨rfl, rfl⟩)
  | .returning e _, he => by
    rw [Eval.eval, Strict.eval]
    apply Gives.nodeValue
    refine Gives.checked_bind (operand_gives hc frame e he) (fun _ => same_of_isError) ?_
    intro v hv
    rw [keep_bind (Bool.eq_false_iff.mp (isError_of_sound hv))]
    exact Gives.step (Ensures.bind newObject_keeps fun _ _ =>
      Ensures.pure _ (.inr (.returned trivial hv)))
  | .integer .., _ => by
    rw [Eval.eval, Strict.eval]
    exact Gives.nodeValue (Gives.integer _)
  | .string .., _ => by
    rw [Eval.eval, Strict.eval]
    exact Gives.nodeValue (Gives.string _)
  | .boolean .., _ => by
    rw [Eval.eval, Strict.eval]
    exact Gives.nodeValue (Gives.boolean _)
  | .array es _, hes => by
    rw [Eval.eval, Strict.eval]
    apply Gives.nodeValue
    exact Reads.bind (evalAll_gives hc frame [] es hes) fun vs hvs => Gives.array hvs
  | .hash ps _, hps => by
    rw [Eval.eval, Strict.eval]
    apply Gives.nodeValue
    refine Unbroken.bind (evalPairs_gives hc frame entriesHold_nil ps hps.1 hps.2) ?_
    rintro _ r ⟨rfl, hr⟩
    cases r with
    | error e => exact Gives.value (.inl hr)
    | ok entries =>
      exact Gives.step ((newHash_keeps admits_proper hr.keys hr.values).mono fun _ => .inr)
  | .function xs b _, hb => by
    rw [Eval.eval, Strict.eval]
    apply Gives.nodeValue
    exact Gives.step (Ensures.bind newObject_keeps fun _ _ => Ensures.pure _ (.inr (.plain rfl hb)))
  | .identifier x, _ => by
    rw [Eval.eval, Strict.eval]
    exact Gives.nodeValue (Gives.step (valueOfName_fine admits_proper _ _ _))
  | .prefixed o r _, ⟨ho, hr⟩ => by
    rw [Eval.eval, Strict.eval]
    apply Gives.nodeValue
    refine Gives.checked_bind (operand_gives hc frame r hr) (fun _ => same_of_isError) ?_
    exact fun v hv => applyPrefix_gives ho hv
  | .binary l o r _, ⟨hl, hr⟩ => by
    rw [Eval.eval, Strict.eval]
    apply Gives.nodeValue
    refine Gives.checked_bind (operand_gives hc frame l hl) (fun _ => same_of_isError) ?_
    intro v hv
    refine Gives.checked_bind (operand_gives hc frame r hr) (fun _ => same_of_isError) ?_
    exact fun w hw => applyBinary_gives o hv hw
  | .conditional c d a _, ⟨hcond, hd, ha⟩ => by
    rw [Eval.eval, Strict.eval]
    apply Gives.nodeValue
    refine Gives.checked_bind (operand_gives hc frame c hcond) (fun _ => same_of_isError) ?_
    intro v _
    refine Mirrors.ite (fun _ => block_gives hc frame d hd) fun _ => ?_
    exact evalAlternative_gives hc frame a ha
  | .call f as _, ⟨hf, has⟩ => by
    rw [Eval.eval, Strict.eval]
    apply Gives.nodeValue
    refine Gives.checked_bind (operand_gives hc frame f hf) (fun _ => same_of_isError) ?_
    intro v hv
    refine Reads.bind (evalAll_gives hc frame [] as has) fun vs hvs => ?_
    rw [keepAll_bind hvs]
    exact hc v vs hv hvs
  | .index l i _, ⟨hl, hi⟩ => by
    rw [Eval.eval, Strict.eval]
    apply Gives.nodeValue
    refine Gives.checked_bind (operand_gives hc frame l hl) (fun _ => same_of_isError) ?_
    intro v hv
    refine Gives.checked_bind (operand_gives hc frame i hi) (fun _ => same_of_isError) ?_
    exact fun w hw => applyIndex_gives hv hw

/-- An expression leaves a value. -/
theorem operand_gives (hc : CallsAgree cx enter) (frame : FrameId) (n : Node)
    (hn : Fits .expression n) :
    Gives cx.surrogate? Fine (Eval.eval cx frame n) (Strict.eval ⟨cx, enter⟩ frame n) :=
  (eval_gives hc frame n hn.parts).mono fun _ h => h.fine hn nofun

/-- A block leaves a value. -/
theorem block_gives (hc : CallsAgree cx enter) (frame : FrameId) (n : Node)
    (hn : Fits .block n) :
    Gives cx.surrogate? Fine (Eval.eval cx frame n) (Strict.eval ⟨cx, enter⟩ frame n) :=
  (eval_gives hc frame n hn.parts).mono fun _ h => h.fine hn nofun

theorem evalAlternative_gives (hc : CallsAgree cx enter) (frame : FrameId) :
    (a : Option Node) → (∀ n ∈ a, Fits .block n) →
    Gives cx.surrogate? Fine (Eval.evalAlternative cx frame a)
      (Strict.evalAlternative ⟨cx, enter⟩ frame a)
  | none, _ => Gives.null
  | some n, hn => block_gives hc frame n (hn n rfl)

theorem evalBlock_gives (hc : CallsAgree cx enter) (frame : FrameId) {last : Value}
    (hlast : Fine last ∨ last = .absent) : (ss : List Node) → (∀ s ∈ ss, Fits .statement s) →
    Gives cx.surrogate? Fine (Eval.evalBlock cx frame last ss)
      (Strict.evalBlock ⟨cx, enter⟩ frame last ss)
  | [], _ => by
    rw [Eval.evalBlock, Strict.evalBlock]
    rcases hlast with hlast | rfl
    · rw [if_neg (Bool.eq_false_iff.mp (isAbsent_of_fine hlast))]
      exact Gives.value hlast
    · exact Gives.null
  | s :: ss, hss => by
    rw [List.forall_mem_cons] at hss
    rw [Eval.evalBlock, Strict.evalBlock]
    refine Unbroken.bind (eval_gives hc frame s hss.1.parts) ?_
    rintro _ v ⟨rfl, hv⟩
    have hrest (hlast : Fine v ∨ v = .absent) := evalBlock_gives hc frame hlast ss hss.2
    rcases hv with hv | ⟨rfl, -⟩
    · have habsent := isAbsent_of_fine hv
      rw [if_neg (Bool.eq_false_iff.mp habsent), typeOf_bind habsent]
      by_cases hends : v.typeName = "RETURN_VALUE" ∨ v.typeName = "ERROR"
      · rw [if_pos hends]
        rcases hends with ht | ht
        · obtain ⟨id, payload, rfl⟩ := exists_returned hv ht
          exact Gives.value hv
        · obtain ⟨id, message, rfl⟩ := exists_error hv ht
          exact Gives.value hv
      · rw [if_neg hends]
        cases v with
        | returned => exact absurd (.inl rfl) hends
        | error => exact absurd (.inr rfl) hends
        | _ => exact hrest (.inl hv)
    · exact hrest (.inr rfl)

theorem evalAll_gives (hc : CallsAgree cx enter) (frame : FrameId) (read : List Value) :
    (ns : List Node) → (∀ n ∈ ns, Fits .expression n) →
    Unbroken cx.surrogate? (Reads read) (Eval.evalAll cx frame ns)
      (Strict.evalAll ⟨cx, enter⟩ frame read ns)
  | [], _ => Mirrors.pure ⟨(List.append_nil read).symm, List.forall_mem_nil _⟩
  | n :: ns, hns => by
    rw [List.forall_mem_cons] at hns
    rw [Eval.evalAll, Strict.evalAll]
    refine Gives.checked_bind (operand_gives hc frame n hns.1) (fun v hv => ⟨rfl, hv⟩) ?_
    intro v hv
    rw [← bind_pure (Strict.evalAll _ _ _ ns)]
    refine Unbroken.bind (evalAll_gives hc frame (read ++ [v]) ns hns.2) fun vs r hr => ?_
    cases r with
    | error e => exact Mirrors.pure hr
    | ok ws =>
      obtain ⟨rfl, hws⟩ := hr
      exact Mirrors.pure ⟨List.append_assoc read [v] ws, List.forall_mem_cons.mpr ⟨hv, hws⟩⟩

theorem evalPairs_gives (hc : CallsAgree cx enter) (frame : FrameId)
    {entries : Ordered HashKey (Value × Value)}
    (hentries : EntriesHold Proper entries) :
    (ps : List (Node × Node)) → (∀ p ∈ ps, Fits .expression p.1) →
    (∀ p ∈ ps, Fits .expression p.2) →
    Unbroken cx.surrogate? (Same EntriesRead) (Eval.evalPairs cx frame entries ps)
      (Strict.evalPairs ⟨cx, enter⟩ frame entries ps)
  | [], _, _ => Mirrors.pure ⟨rfl, hentries⟩
  | (k, v) :: ps, hkeys, hvalues => by
    rw [List.forall_mem_cons] at hkeys hvalues
    rw [Eval.evalPairs, Strict.evalPairs]
    refine Gives.checked_bind (operand_gives hc frame k hkeys.1) (fun _ he => ⟨rfl, he⟩) ?_
    intro key hkey
    have habsent := isAbsent_of_sound hkey
    rw [demand_bind_eq habsent, isHashable_eq hkey, pure_bind, typeOf_bind habsent]
    by_cases hhashable : key.isHashable
    · rw [if_pos hhashable, if_neg (by simp [hhashable])]
      refine Gives.checked_bind (operand_gives hc frame v hvalues.1) (fun _ he => ⟨rfl, he⟩) ?_
      intro value hvalue
      refine Unbroken.bind (keyOf_gives hhashable) ?_
      rintro _ hash ⟨rfl, -⟩
      rw [keepAll_bind (List.forall_mem_cons.mpr ⟨hkey, List.forall_mem_singleton.mpr hvalue⟩)]
      exact evalPairs_gives hc frame (hentries.insert hash hkey hvalue) ps hkeys.2 hvalues.2
    · rw [if_neg hhashable, if_pos (by simp [hhashable])]
      exact Mirrors.step_bind (raise_keeps _) fun e he => Mirrors.pure ⟨rfl, he⟩

end

/-- What a program may leave. -/
abbrev Ends (v : Value) : Prop := Fine v ∨ v = .absent

theorem evalProgram_gives (hc : CallsAgree cx enter) (frame : FrameId) {last : Value}
    (hlast : Ends last) (ss : List Node) (hss : ∀ s ∈ ss, Fits .statement s) :
    Gives cx.surrogate? Ends (Eval.evalProgram cx frame last ss)
      (Strict.evalProgram ⟨cx, enter⟩ frame last ss) := by
  induction ss generalizing last with
  | nil => exact Gives.value hlast
  | cons s ss ih =>
    rw [List.forall_mem_cons] at hss
    rw [Eval.evalProgram, Strict.evalProgram]
    refine Unbroken.bind (eval_gives hc frame s hss.1.parts) ?_
    rintro _ v ⟨rfl, hv⟩
    have hrest (hlast : Ends v) := ih hlast hss.2
    rcases hv with hv | ⟨rfl, -⟩
    · have habsent := isAbsent_of_fine hv
      rw [if_neg (Bool.eq_false_iff.mp habsent), typeOf_bind habsent]
      by_cases hreturned : v.typeName = "RETURN_VALUE"
      · rw [if_pos hreturned]
        obtain ⟨id, payload, rfl⟩ := exists_returned hv hreturned
        exact Gives.value (.inl (.inr (sound_of_fine hv Bool.false_ne_true).payload))
      rw [if_neg hreturned]
      by_cases herror : v.typeName = "ERROR"
      · rw [if_pos herror]
        obtain ⟨id, message, rfl⟩ := exists_error hv herror
        exact Gives.value (.inl hv)
      rw [if_neg herror]
      cases v with
      | returned => exact absurd rfl hreturned
      | error => exact absurd rfl herror
      | _ => exact hrest (.inl hv)
    · exact hrest (.inr rfl)

/-! ## Calls agree -/

theorem openReturn_gives (h : Fine v) :
    Gives surrogate? Fine (Eval.openReturn v) (openReturn v) := by
  rw [openReturn, typeOf_bind (isAbsent_of_fine h)]
  by_cases hreturned : v.typeName = "RETURN_VALUE"
  · rw [if_pos hreturned]
    obtain ⟨id, payload, rfl⟩ := exists_returned h hreturned
    exact Gives.sound (sound_of_fine h Bool.false_ne_true).payload
  · rw [if_neg hreturned]
    cases v with
    | returned => exact absurd rfl hreturned
    | absent => exact absurd (isAbsent_of_fine h) nofun
    | _ => exact Gives.value h

/-- Calling what is no function of the program. -/
theorem applyOther_gives (setting : Setting) (depth : Nat) {f : Value}
    {args : List Value} (hf : Sound f) (hargs : ∀ v ∈ args, Sound v)
    (hother : f.isFunction = false) :
    Gives setting.surrogate? Fine (Eval.applyFunction setting depth f args)
      (Strict.applyFunction setting depth f args) := by
  cases f with
  | function => cases hother
  | builtin b =>
    rw [Eval.applyFunction, Strict.applyFunction]
    exact applyBuiltin_gives b hargs
  | absent | tagged => exact hf.here.elim
  | _ =>
    rw [Eval.applyFunction, Strict.applyFunction, typeOf_bind rfl, if_neg]
    · exact Gives.raise _
    all_goals simp [Value.typeName]

/-- Calls agree, however deeply they may be nested. -/
theorem applyFunction_gives (setting : Setting) (depth : Nat) :
    CallsAgree (Eval.contextOfDepth setting depth)
      (Strict.applyFunction setting depth) := by
  induction depth with
  | zero =>
    intro f args hf hargs
    cases f with
    | function id xs b frame =>
      show Gives setting.surrogate? Fine (Eval.applyFunction _ _ _ _) _
      rw [Eval.applyFunction, Strict.applyFunction]
      exact Mirrors.ite (fun _ => Gives.raise _) fun _ => Mirrors.stop (.inl rfl)
    | _ => exact applyOther_gives setting 0 hf hargs rfl
  | succ depth ih =>
    intro f args hf hargs
    cases f with
    | function id xs b frame =>
      have hbody : Fits .block b := hf.here
      show Gives setting.surrogate? Fine (Eval.applyFunction _ _ _ _) _
      rw [Eval.applyFunction, Strict.applyFunction]
      refine Mirrors.ite (fun _ => Gives.raise _) fun _ => ?_
      refine Mirrors.step_bind (createFrame_keeps (some frame)) fun inner _ => ?_
      refine Mirrors.step_bind (bindAll_keeps xs hargs) fun _ _ => ?_
      refine Unbroken.bind (block_gives ih inner b hbody) ?_
      rintro _ v ⟨rfl, hv⟩
      exact openReturn_gives hv
    | _ => exact applyOther_gives setting (depth + 1) hf hargs rfl

/-! ## Sessions agree -/

/-- Top-level statements read from a source text are evaluated strictly. -/
theorem evalStatements_gives (setting : Setting) (frame : FrameId) {ss : List Node}
    (hss : ∀ s ∈ ss, Fits .statement s) :
    Gives setting.surrogate? Ends (Monkey.evalStatements setting frame ss)
      (Strict.evalStatements setting frame ss) :=
  evalProgram_gives (applyFunction_gives setting setting.callLimit) frame (.inr rfl) ss hss

/-- Sessions on whose machines only sound values are bound evaluate parsed statements
    strictly. -/
theorem evaluate_agrees {s : Session} (hs : s.machine.Holds Proper) {ss : List Node}
    (hss : ∀ s ∈ ss, Fits .statement s) :
    Strict.evaluate s ss = .ok (s.evaluate ss) ∧ (s.evaluate ss).2.machine.Holds Proper ∧
      ((∃ v, (s.evaluate ss).1.outcome = .finished v ∧ Ends v) ∨
        ∃ reason, (s.evaluate ss).1.outcome = .stopped reason ∧
          MayStop s.surrogate? reason) := by
  have hrun := evalStatements_gives s.toSetting s.root hss { s.machine with output := [] } hs
  unfold Strict.evaluate Session.evaluate Machine.perform
  split at hrun
  · next hstrict =>
    obtain ⟨hm, _, heval, rfl, hv⟩ := hrun
    simp only [hstrict, heval]
    exact ⟨trivial, hm, .inl ⟨_, rfl, hv⟩⟩
  · exact hrun.2.elim fun _ h => h.2.elim
  · next hstrict =>
    obtain ⟨hm, heval, hstop⟩ := hrun
    simp only [hstrict, heval]
    exact ⟨trivial, hm, .inr ⟨_, rfl, hstop⟩⟩

/-- On the machines of all sessions visited only sound values are bound. -/
theorem holds_of_visited {s : Session} (hs : s.Visited) : s.machine.Holds Proper := by
  induction hs with
  | start setting => exact Heap.Everywhere.create Heap.everywhere_empty none
  | evaluate _ hparse ih => exact (evaluate_agrees ih (Parser.parse_fits hparse)).2.1

theorem run_agrees {s : Session} (hs : s.machine.Holds Proper) (source : String) :
    Strict.run s source = (s.run source).map .ok := by
  unfold Strict.run Session.run
  cases hparse : parse source with
  | error refusal => rfl
  | ok p =>
    have hevaluate := (evaluate_agrees hs (Parser.parse_fits hparse)).1
    show (if _ then _ else _) = Except.map _ (if _ then _ else _)
    rw [hevaluate]
    split <;> rfl

theorem noError_of_proper (v : Value) (h : Proper v) : Propagation.NoError v := by
  cases v with
  | error => exact h.elim
  | _ => rfl

theorem fine_noError_of_ends {v : Value} (h : Ends v) : v.Fine Propagation.NoError := by
  rcases h with h | rfl
  · exact h.imp_right (Value.Everywhere.mono noError_of_proper)
  · exact .inr Propagation.sound_absent

end Strict

open Strict

/-- Errors never become data.  In no session is an error bound in a frame, or an element, a
    key, a value or a payload within what is bound.  No run of a source text keeps an error
    that it comes across, be it in a frame, an array, a hash or an early return, or passes one
    to a call: it does what strict evaluation does, which is broken off by that.  So the list
    that strict evaluation takes for an error, of one element that is one, is never a list of
    values; and what a program comes to is an error or holds none. -/
theorem run_keeps_no_error {s : Session} (hs : s.Reachable) :
    s.machine.Holds Propagation.NoError ∧
      ∀ source, Strict.run s source = (s.run source).map .ok ∧
        ∀ answer t, s.run source = .ok (answer, t) →
          ∀ v, answer.outcome = .finished v → v.Fine Propagation.NoError := by
  have hm := holds_of_visited hs.visited
  refine ⟨Heap.Everywhere.mono noError_of_proper hm, fun source => ⟨run_agrees hm source, ?_⟩⟩
  intro answer t hrun v hv
  cases hparse : parse source with
  | error refusal =>
    rw [Session.run, hparse] at hrun
    cases hrun
  | ok p =>
    rcases Session.run_cases hparse hrun with ⟨-, errors, houtcome⟩ | ⟨-, houtcome⟩
    · rw [houtcome] at hv
      cases hv
    · rw [houtcome] at hv
      have hends := (evaluate_agrees hm (Parser.parse_fits hparse)).2.2
      rw [hv] at hends
      rcases hends with ⟨_, hfinished, hends⟩ | ⟨_, hstopped, -⟩
      · cases hfinished
        exact fine_noError_of_ends hends
      · cases hstopped

/-- A program binds an array, and then an error comes up among the elements of another. -/
theorem run_keeps_no_error_element :
    ∃ answer s, (Session.start { callLimit := 100 }).run "let x = [1]; [x, 1 + true]" =
        .ok (answer, s) ∧
      (∃ e, answer.outcome = .finished e ∧ e.isError) ∧ s.Reachable ∧
      s.machine.Holds Propagation.NoError ∧
      Strict.run s "fn(y) \x7b [y] \x7d(x[0] + x)" =
        (s.run "fn(y) \x7b [y] \x7d(x[0] + x)").map .ok := by
  obtain ⟨p, hparse⟩ : ∃ p, parse "let x = [1]; [x, 1 + true]" = .ok p := ⟨_, rfl⟩
  obtain ⟨answer, s, hrun, herror⟩ : ∃ answer s, (Session.start { callLimit := 100 }).run
      "let x = [1]; [x, 1 + true]" = .ok (answer, s) ∧
        ∃ e, answer.outcome = .finished e ∧ e.isError := ⟨_, _, rfl, _, rfl, rfl⟩
  have hs : s.Reachable := .run (.start _) hparse trivial hrun
  exact ⟨answer, s, hrun, herror, hs, (run_keeps_no_error hs).1, ((run_keeps_no_error hs).2 _).1⟩

/-- A hash cannot be indexed with a string without an encoding, whatever its entries. -/
theorem Operator.applyIndex_unencodable {surrogate? : Text.Surrogates} {text : String}
    {error : Text.EncodeError} (h : Text.encodeUtf8 surrogate? text = .error error)
    (id : ObjectId) (entries : List (HashKey × (Value × Value))) (m : Machine) :
    applyIndex surrogate? (.hash id entries) (.string text) m =
      .error (.noKey (.unencodable error)) m := by
  have hkey : (Value.string text).hashKey surrogate? = .error (.unencodable error) := by
    rw [Value.hashKey, h]
  show (keyOf surrogate? (.string text) >>= _) m = _
  rw [keyOf, hkey]
  rfl

/-- Evaluation is stuck at most at strings without an encoding that are to be keys.  In all
    sessions in which source texts have been evaluated, with mistakes in them or without, what is
    read from a source text is evaluated as strict evaluation does, which is not broken off: no
    part of no value is taken, no element beyond the end of a list and no key of what cannot be
    one, nothing is divided by zero, every expression and every block leaves a value, and there is
    a rule for every node and every prefix operator.  Only calls that are nested too deeply and
    keys that cannot be encoded end it before there is a result, and there are none of these where
    no character stands for an unpaired surrogate. -/
theorem evaluate_strict {s : Session} (hs : s.Visited) {source : String} {p : Parse}
    (hparse : parse source = .ok p) :
    Strict.evaluate s p.statements = .ok (s.evaluate p.statements) ∧
      ((∃ v, (s.evaluate p.statements).1.outcome = .finished v) ∨
        (s.evaluate p.statements).1.outcome = .stopped .callDepth ∨
        ∃ text error, Text.encodeUtf8 s.surrogate? text = .error error ∧
          (s.evaluate p.statements).1.outcome = .stopped (.noKey (.unencodable error))) ∧
      ((∀ c, s.surrogate? c = none) →
        (∃ v, (s.evaluate p.statements).1.outcome = .finished v) ∨
          (s.evaluate p.statements).1.outcome = .stopped .callDepth) := by
  obtain ⟨hstrict, -, hends⟩ := evaluate_agrees (holds_of_visited hs) (Parser.parse_fits hparse)
  rcases hends with ⟨v, hv, -⟩ | ⟨_, hreason, rfl | ⟨text, error, hrefused, rfl⟩⟩
  · exact ⟨hstrict, .inl ⟨v, hv⟩, fun _ => .inl ⟨v, hv⟩⟩
  · exact ⟨hstrict, .inr (.inl hreason), fun _ => .inr hreason⟩
  · refine ⟨hstrict, .inr (.inr ⟨text, error, hrefused, hreason⟩), fun hnone => ?_⟩
    rw [Text.encodeUtf8, Text.encodeError?_eq_none_iff.mpr fun c _ => hnone c] at hrefused
    cases hrefused

/-- The statements that are left of a source text with a mistake, evaluated after those of
    another, in a session that such a text has led to. -/
theorem evaluate_strict_partial :
    ∃ p q, parse "let 1; let f = fn() \x7b let x = 1 \x7d" = .ok p ∧ p.errors ≠ [] ∧
      parse "(; -f() + [f][1]" = .ok q ∧ q.errors ≠ [] ∧
      let s := ((Session.start { callLimit := 100 }).evaluate p.statements).2
      s.Visited ∧ Strict.evaluate s q.statements = .ok (s.evaluate q.statements) := by
  obtain ⟨p, hp, hperrors⟩ : ∃ p, parse "let 1; let f = fn() \x7b let x = 1 \x7d" = .ok p ∧
    p.errors ≠ [] := ⟨_, rfl, by decide⟩
  obtain ⟨q, hq, hqerrors⟩ : ∃ q, parse "(; -f() + [f][1]" = .ok q ∧ q.errors ≠ [] :=
    ⟨_, rfl, by decide⟩
  have hs := (Session.Visited.start { callLimit := 100 }).evaluate hp
  exact ⟨p, q, hp, hperrors, hq, hqerrors, hs, (evaluate_strict hs hq).1⟩

/-- A text that holds an unpaired surrogate, for which a character stands that is no other's,
    stops the evaluation of a source text that indexes a hash with it. -/
theorem run_unencodable :
    let surrogate? : Text.Surrogates := fun c => if c = '\uE000' then some 0xD800 else none
    ∃ answer t, (Session.start { callLimit := 100, surrogate? }).run
        "\x7b1: 2\x7d[\"\uE000\"]" = .ok (answer, t) ∧
      answer.outcome = .stopped (.noKey (.unencodable ⟨0, [0xD800]⟩)) ∧
      Text.EncodeError.message ⟨0, [0xD800]⟩ =
        "'utf-8' codec can't encode character '\\ud800' in position 0: surrogates not allowed" :=
  ⟨_, _, rfl, rfl, rfl⟩

end Monkey
