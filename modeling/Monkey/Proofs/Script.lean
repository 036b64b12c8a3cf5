import Monkey.Proofs.Eval.Erasure
import Monkey.Proofs.Eval.Keeps
import Monkey.Proofs.Eval.Watched
import Monkey.Proofs.Parser.Completeness
import Monkey.Proofs.Parser.Seam
import Monkey.Proofs.Parser.Soundness
import Monkey.Proofs.Session
import Monkey.Proofs.Token.Seam

/-!
# Sessions and scripts

Two programs run one after the other in a session come to what they come to as one program, on
lines that follow one another.  The functions that the session is left with then differ in the
places where they were read, and in nothing else.
-/

namespace Monkey

/-! ## Statements one after the other -/

namespace Eval

/-- Statements are evaluated in a frame one after the other, from one machine to another, and
    the value of none is an error or an early return. -/
inductive Passes (cx : EvalContext) (frame : FrameId) : List Node → Machine → Machine → Prop
  | nil (m : Machine) : Passes cx frame [] m m
  | cons {n : Node} {ns : List Node} {v : Value} {m m' m'' : Machine} :
      eval cx frame n m = .ok v m' → v.isError = false → v.isReturned = false →
      Passes cx frame ns m' m'' → Passes cx frame (n :: ns) m m''

variable {cx : EvalContext} {frame : FrameId}

theorem evalProgram_cons_of_passes {n : Node} {v : Value} {m m' : Machine}
    (heval : eval cx frame n m = .ok v m') (herror : v.isError = false)
    (hreturned : v.isReturned = false) (last : Value) (ns : List Node) :
    evalProgram cx frame last (n :: ns) m = evalProgram cx frame v ns m' := by
  rw [evalProgram, bind_run_ok heval]
  cases v with
  | error => cases herror
  | returned => cases hreturned
  | _ => rfl

/-- After statements that pass, a program goes on with those that follow. -/
theorem Passes.evalProgram_append {ns : List Node} {m m' : Machine}
    (h : Passes cx frame ns m m') (last : Value) :
    ∃ v, ∀ ns', evalProgram cx frame last (ns ++ ns') m = evalProgram cx frame v ns' m' := by
  induction h generalizing last with
  | nil m => exact ⟨last, fun _ => rfl⟩
  | cons heval herror hreturned _ ih =>
    obtain ⟨v, hv⟩ := ih _
    exact ⟨v, fun ns' => (evalProgram_cons_of_passes heval herror hreturned last _).trans (hv ns')⟩

theorem evalProgram_of_ne_nil {ns : List Node} (h : ns ≠ []) (last last' : Value) :
    evalProgram cx frame last ns = evalProgram cx frame last' ns := by
  cases ns with
  | nil => exact absurd rfl h
  | cons n ns => rw [evalProgram, evalProgram]

end Eval

/-! ## Performances -/

namespace Performance

/-- How a run has ended. -/
def ofResult : EStateM.Result Stop Machine Value → Performance
  | .ok v m => ⟨.ok v, m.output.reverse, { m with output := [] }⟩
  | .error e m => ⟨.error e, m.output.reverse, { m with output := [] }⟩

/-- A performance without tokens, when some lines had been written before. -/
def bare (written : List OutputLine) (p : Performance) : Performance :=
  ⟨p.result.map Value.strip, written.reverse ++ p.output, p.machine.bare []⟩

theorem ofResult_bare {x y : Run Value} (h : Erases x y) (m : Machine)
    (written : List OutputLine) :
    (ofResult (x m)).bare written = ofResult (y (m.bare written)) := by
  rw [h m written]
  cases x m <;> simp [ofResult, bare, Machine.bare, Except.map]

end Performance

theorem perform_eq (m : Machine) (x : Run Value) :
    m.perform x = .ofResult (x { m with output := [] }) := by
  unfold Machine.perform
  cases x { m with output := [] } <;> rfl

/-- Without tokens, the performances of alike programs are the same. -/
theorem perform_alike (setting : Setting) (frame : FrameId) (m : Machine)
    {ss ts : List Node} (h : Node.stripAll ss = Node.stripAll ts) :
    (m.perform (evalStatements setting frame ss)).bare [] =
      (m.perform (evalStatements setting frame ts)).bare [] := by
  rw [perform_eq, perform_eq,
    Performance.ofResult_bare (evalStatements_erases setting frame ss),
    Performance.ofResult_bare (evalStatements_erases setting frame ts), h]

/-- After statements that pass, the others perform what they perform on the machine that is
    left. -/
theorem perform_append {setting : Setting} {frame : FrameId} {m m' : Machine} {ss ss' : List Node}
    (hpasses : Eval.Passes (Eval.contextOfDepth setting setting.callLimit) frame ss
      { m with output := [] } m')
    (hne : ss' ≠ []) :
    (∃ v, m.perform (evalStatements setting frame ss) =
      ⟨.ok v, m'.output.reverse, { m' with output := [] }⟩) ∧
    (m.perform (evalStatements setting frame (ss ++ ss'))).bare [] =
      (Machine.perform { m' with output := [] }
        (evalStatements setting frame ss')).bare m'.output := by
  obtain ⟨v, hv⟩ := hpasses.evalProgram_append .absent
  constructor
  · have hempty := hv []
    rw [List.append_nil] at hempty
    rw [perform_eq]
    exact ⟨v, congrArg Performance.ofResult hempty⟩
  · have herases := evalStatements_erases setting frame ss'
    have hseam : Machine.bare m'.output { m' with output := [] } = m'.bare [] :=
      congrArg (Machine.mk _ _) (List.append_nil m'.output).symm
    rw [perform_eq, perform_eq, Performance.ofResult_bare herases, hseam,
      ← Performance.ofResult_bare herases]
    refine congrArg (fun r => (Performance.ofResult r).bare []) ?_
    exact (hv ss').trans (congrFun (Eval.evalProgram_of_ne_nil hne v .absent) m')

/-! ## Sessions -/

namespace Session

/-- An outcome without tokens. -/
def Outcome.strip : Outcome → Outcome
  | .finished v => .finished v.strip
  | .stopped reason => .stopped reason
  | .rejected errors => .rejected errors

/-- A session without tokens. -/
def strip (s : Session) : Session := { s with machine := s.machine.bare [] }

theorem bindings_strip (s : Session) : s.strip.bindings = stripBindings s.bindings :=
  s.machine.heap.bindings_strip s.root

/-- Evaluations that perform the same, on machines of their own. -/
theorem evaluate_congr {s t : Session} {m : Machine} {ss ss' : List Node}
    {written : List OutputLine} (ht : t = { s with machine := m })
    (h : (s.machine.perform (evalStatements s.toSetting s.root ss)).bare [] =
      (m.perform (evalStatements s.toSetting s.root ss')).bare written) :
    (s.evaluate ss).1.outcome.strip = (t.evaluate ss').1.outcome.strip ∧
      (s.evaluate ss).1.output = written.reverse ++ (t.evaluate ss').1.output ∧
      (s.evaluate ss).2.strip = (t.evaluate ss').2.strip := by
  subst ht
  unfold evaluate
  generalize s.machine.perform _ = done at h
  generalize m.perform _ = done' at h
  obtain ⟨result, output, machine⟩ := done
  obtain ⟨result', output', machine'⟩ := done'
  simp only [Performance.bare, Performance.mk.injEq] at h
  obtain ⟨hresult, houtput, hmachine⟩ := h
  refine ⟨?_, houtput, congrArg (fun m => Session.mk _ m _) hmachine⟩
  cases result with
  | ok v =>
    cases result' with
    | ok v' => exact congrArg Outcome.finished (Except.ok.inj hresult)
    | error => cases hresult
  | error reason =>
    cases result' with
    | ok => cases hresult
    | error reason' => exact congrArg Outcome.stopped (Except.error.inj hresult)

/-- The evaluation of a program that is two programs, one after the other. -/
theorem evaluate_append {s : Session} {ss ss' ts : List Node} {m : Machine}
    (hpasses : Eval.Passes (Eval.contextOfDepth s.toSetting s.callLimit) s.root ss
      { s.machine with output := [] } m)
    (hne : ss' ≠ []) (hts : Node.stripAll ts = Node.stripAll (ss ++ ss')) :
    (s.evaluate ts).1.outcome.strip = ((s.evaluate ss).2.evaluate ss').1.outcome.strip ∧
      (s.evaluate ts).1.output =
        (s.evaluate ss).1.output ++ ((s.evaluate ss).2.evaluate ss').1.output ∧
      (s.evaluate ts).2.strip = ((s.evaluate ss).2.evaluate ss').2.strip := by
  obtain ⟨⟨v, hfirst⟩, hlater⟩ := perform_append hpasses hne
  have hevaluate : (s.evaluate ss).2 = { s with machine := { m with output := [] } } := by
    unfold evaluate
    rw [hfirst]
  have houtput : (s.evaluate ss).1.output = m.output.reverse := by
    unfold evaluate
    rw [hfirst]
  rw [houtput]
  exact evaluate_congr hevaluate ((perform_alike _ _ _ hts).trans hlater)

theorem evaluate_of_comesTo {s : Session} {ss : List Node} {post : Value → Prop}
    (h : ComesTo (evalStatements s.toSetting s.root ss) post) :
    ∃ v, (s.evaluate ss).1.outcome = .finished v ∧ post v := by
  have hrun := h { s.machine with output := [] } trivial
  unfold evaluate
  rw [perform_eq]
  cases hx : evalStatements s.toSetting s.root ss { s.machine with output := [] } with
  | ok v m =>
    rw [hx] at hrun
    exact ⟨v, rfl, hrun.2⟩
  | error reason m =>
    rw [hx] at hrun
    exact hrun.2.elim

/-- A program that is one expression comes to what the expression comes to, whatever tokens it is
    made of. -/
theorem evaluate_expression (s : Session) {ss : List Node} {e : Node} {post : Value → Prop}
    (hss : Node.stripAll ss = Node.stripAll [.exprStatement e none])
    (he : ∀ cx frame, ComesTo (Eval.eval cx frame e) post)
    (hreturned : ∀ v, post v → v.isReturned = false)
    (hstrip : ∀ v w, v.strip = w.strip → post v → post w) :
    ∃ v, (s.evaluate ss).1.outcome = .finished v ∧ post v := by
  have hprogram : ComesTo (evalStatements s.toSetting s.root [.exprStatement e none])
      post := by
    rw [evalStatements, Eval.evalProgram, Eval.eval]
    refine .bind (ComesTo.traced (he _ _)) fun v hv => ?_
    have hvalue := hreturned v hv
    cases v with
    | returned => cases hvalue
    | _ => exact .pure _ hv
  obtain ⟨v, hv, hpost⟩ := evaluate_of_comesTo hprogram
  have hperform := perform_alike s.toSetting s.root s.machine hss
  have houtcome := (@evaluate_congr s s s.machine ss _ [] rfl hperform).1
  rw [hv] at houtcome
  cases hout : (s.evaluate ss).1.outcome with
  | rejected | stopped =>
    rw [hout] at houtcome
    cases houtcome
  | finished w =>
    rw [hout] at houtcome
    exact ⟨w, rfl, hstrip v w (Outcome.finished.inj houtcome).symm hpost⟩

end Session

/-! ## Source texts one after the other -/

section Parse

open Grammar

/-- A source text that derives statements has legal tokens only. -/
theorem legal_of_derives {source : String} {ss : List Node}
    (h : Derives (.statements ss) (wordsOf (scan source)) []) :
    ∀ t ∈ scan source, t.kind ≠ .illegal := by
  obtain ⟨c, hc, hlegal, -⟩ := h.spans trivial
  rw [List.append_nil] at hc
  intro t ht hillegal
  have hne : t.kind ≠ .eof := by
    rw [hillegal]
    decide
  have hmem : t.word ∈ wordsOf (scan source) := mem_wordsOf_scan_iff.mpr ⟨t, ht, hne, rfl⟩
  exact hlegal t.word (hc ▸ hmem) hillegal

/-- A source text that ends in a semicolon and leaves nothing open is parsed on its own, also if
    lines follow. -/
theorem parse_line {source₁ source₂ : String} {p₁ p₂ : Parse} (hparse₁ : parse source₁ = .ok p₁)
    (herrors₁ : p₁.errors = []) (hparse₂ : parse source₂ = .ok p₂) (herrors₂ : p₂.errors = [])
    (hsemicolon : EndsStatement (wordsOf (scan source₁)))
    (hbraces : excess (wordsOf (scan source₁)) = 0)
    (hbackslash : source₁.toList.getLast? ≠ some '\\') :
    ∃ p, parse (source₁ ++ "\n" ++ source₂) = .ok p ∧ p.errors = [] ∧
      Node.stripAll p.statements = Node.stripAll (p₁.statements ++ p₂.statements) := by
  have hderives₁ : Derives (.statements (Node.stripAll p₁.statements))
      (wordsOf (scan source₁)) [] := Parser.run_derives (eofLast_scan source₁) hparse₁ herrors₁
  have hderives₂ : Derives (.statements (Node.stripAll p₂.statements))
      (wordsOf (scan source₂)) [] := Parser.run_derives (eofLast_scan source₂) hparse₂ herrors₂
  have hlegal := legal_of_derives hderives₁
  have hwords := wordsOf_scan_line source₂ hbackslash fun t ht hquote => hlegal t ht hquote.1
  have hderives := hderives₁.statements_append hbraces (fun _ => hsemicolon) hderives₂
  rw [← hwords, ← Node.stripAll_append] at hderives
  exact @Parser.run_of_derives (.ofSource (source₁ ++ "\n" ++ source₂)) _ (eofLast_scan _) hderives

end Parse

theorem Session.run_of_errors_eq_nil (s : Session) {source : String} {p : Parse}
    (hparse : parse source = .ok p) (herrors : p.errors = []) :
    s.run source = .ok (⟨(s.evaluate p.statements).1.outcome,
      traceLines s.tracing p ++ (s.evaluate p.statements).1.output⟩,
      (s.evaluate p.statements).2) := by
  have hdiagnostics : p.diagnostics = [] := List.map_eq_nil_iff.mp herrors
  rw [s.run_eq hparse, hdiagnostics]
  rfl

/-- Two source texts that may as well be one in a session.  Both parse without mistakes.  The
    first ends in a semicolon, closes the blocks that it opens, and has no backslash at its end,
    which would continue a comment; in the session its statements pass.  The second has
    statements. -/
structure Session.Joins (s : Session) (source₁ source₂ : String) (p₁ p₂ : Parse) : Prop where
  parse₁ : parse source₁ = .ok p₁
  parse₂ : parse source₂ = .ok p₂
  errors₁ : p₁.errors = []
  errors₂ : p₂.errors = []
  semicolon : Grammar.EndsStatement (wordsOf (scan source₁))
  braces : Grammar.excess (wordsOf (scan source₁)) = 0
  backslash : source₁.toList.getLast? ≠ some '\\'
  passes : ∃ m, Eval.Passes (Eval.contextOfDepth s.toSetting s.callLimit) s.root
    p₁.statements { s.machine with output := [] } m
  statements : p₂.statements ≠ []

open Session (traceLines)

/-- Two such source texts, run one after the other or as one with a line feed in between, come to
    the same result, and leave the same session with the same bindings, but for tokens.  The same
    lines are written by their evaluation, in the same order; in a session that traces, the lines
    that trace the parsing stand before those of the evaluation. -/
theorem run_joined {s : Session} {source₁ source₂ : String} {p₁ p₂ : Parse}
    (h : s.Joins source₁ source₂ p₁ p₂) :
    ∃ a₁ t₁ a₂ t₂ a t p out₁ out₂,
      s.run source₁ = .ok (a₁, t₁) ∧ t₁.run source₂ = .ok (a₂, t₂) ∧
      s.run (source₁ ++ "\n" ++ source₂) = .ok (a, t) ∧
      parse (source₁ ++ "\n" ++ source₂) = .ok p ∧
      a.outcome.strip = a₂.outcome.strip ∧
      (s.tracing = false → a.output = a₁.output ++ a₂.output) ∧
      a₁.output = traceLines s.tracing p₁ ++ out₁ ∧
      a₂.output = traceLines s.tracing p₂ ++ out₂ ∧
      a.output = traceLines s.tracing p ++ (out₁ ++ out₂) ∧
      stripBindings t.bindings = stripBindings t₂.bindings ∧ t.strip = t₂.strip := by
  obtain ⟨p, hparse, herrors, hstrip⟩ := parse_line h.parse₁ h.errors₁ h.parse₂ h.errors₂
    h.semicolon h.braces h.backslash
  obtain ⟨m, hpasses⟩ := h.passes
  obtain ⟨houtcome, houtput, hsession⟩ := Session.evaluate_append hpasses h.statements hstrip
  have hrun₁ := s.run_of_errors_eq_nil h.parse₁ h.errors₁
  have hrun₂ := (s.evaluate p₁.statements).2.run_of_errors_eq_nil h.parse₂ h.errors₂
  have hrun := s.run_of_errors_eq_nil hparse herrors
  refine ⟨_, _, _, _, _, _, p, _, _, hrun₁, hrun₂, hrun, hparse, houtcome, ?_, rfl, rfl, ?_, ?_,
    hsession⟩
  · intro htracing
    have hnone (q : Parse) : traceLines s.tracing q = [] := by rw [htracing]; rfl
    have hnone₂ : traceLines (s.evaluate p₁.statements).2.tracing p₂ = [] := hnone p₂
    rw [hnone, hnone, hnone₂, List.nil_append, List.nil_append, List.nil_append, houtput]
  · rw [houtput]
  · rw [← Session.bindings_strip, ← Session.bindings_strip, hsession]

/-- A closure that the first program binds is called by the second, whose result is a closure
    read on another line. -/
theorem run_joined_closure :
    let s := Session.start { callLimit := 100 }
    let source₁ := "let f = fn(x) \x7b puts(x); x + 1; \x7d; // one more"
    let source₂ := "puts(f(2)); fn(y) \x7b f(y) \x7d"
    (∃ p₁ p₂, s.Joins source₁ source₂ p₁ p₂) ∧
      ∃ a₁ t₁ a₂ t₂ a t, s.run source₁ = .ok (a₁, t₁) ∧ t₁.run source₂ = .ok (a₂, t₂) ∧
        s.run (source₁ ++ "\n" ++ source₂) = .ok (a, t) ∧ a.outcome.strip = a₂.outcome.strip ∧
        a.output = a₁.output ++ a₂.output ∧
        stripBindings t.bindings = stripBindings t₂.bindings ∧ t.strip = t₂.strip := by
  intro s source₁ source₂
  obtain ⟨p₁, p₂, h⟩ : ∃ p₁ p₂, (Session.start { callLimit := 100 }).Joins
      "let f = fn(x) \x7b puts(x); x + 1; \x7d; // one more" "puts(f(2)); fn(y) \x7b f(y) \x7d"
      p₁ p₂ :=
    ⟨_, _, rfl, rfl, rfl, rfl, ⟨_, rfl, rfl⟩, by decide, by decide,
      ⟨_, .cons rfl rfl rfl (.nil _)⟩, nofun⟩
  obtain ⟨a₁, t₁, a₂, t₂, a, t, _, _, _, hrun₁, hrun₂, hrun, -, houtcome, houtput, -, -, -,
    hbindings, hsession⟩ := run_joined h
  exact ⟨⟨p₁, p₂, h⟩, a₁, t₁, a₂, t₂, a, t, hrun₁, hrun₂, hrun, houtcome, houtput rfl, hbindings,
    hsession⟩

/-- In a session that traces, the parsing of the second program is traced before the evaluation
    of the first if they are run as one, and after it if they are not. -/
theorem run_joined_tracing :
    let s := Session.start { tracing := true, callLimit := 100 }
    (∃ p₁ p₂, s.Joins "1;" "2" p₁ p₂) ∧
      ∃ a₁ t₁ a₂ t₂ a t, s.run "1;" = .ok (a₁, t₁) ∧ t₁.run "2" = .ok (a₂, t₂) ∧
        a₂.outcome = .finished (.integer 2) ∧ s.run "1;\n2" = .ok (a, t) ∧
        a.output ≠ a₁.output ++ a₂.output :=
  ⟨⟨_, _, rfl, rfl, rfl, rfl, ⟨_, rfl, rfl⟩, rfl, by decide, ⟨_, .cons rfl rfl rfl (.nil _)⟩,
    nofun⟩, _, _, _, _, _, _, rfl, rfl, rfl, rfl, by decide⟩

end Monkey
