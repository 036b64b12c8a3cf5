import Monkey.Proofs.Parser.Invariant

/-!
# Reports and dropped statements

What the log of a parse tells: the mistakes that have been reported and the statements that have
been given up.  Wherever the parser stands, these are as many, but that the statement of the last
report may still be about to be given up.
-/

namespace Monkey.Parser

/-- Whether an event gives a statement up. -/
def Event.isDrop : Event → Bool
  | dropped _ => true
  | _ => false

namespace State

/-- The mistakes reported so far, the newest first. -/
def reports (s : State) : List Diagnostic := s.log.filterMap Event.diagnostic?

/-- How many statements have been given up so far. -/
def drops (s : State) : Nat := s.log.countP Event.isDrop

@[simp] theorem drops_note_attempted (s : State) (n : Nat) :
    (s.note (.attempted n)).drops = s.drops := rfl

@[simp] theorem reports_note_reported (s : State) (d : Diagnostic) :
    (s.note (.reported d)).reports = d :: s.reports := rfl

@[simp] theorem drops_note_reported (s : State) (d : Diagnostic) :
    (s.note (.reported d)).drops = s.drops := rfl

@[simp] theorem drops_note_dropped (s : State) (n : Nat) :
    (s.note (.dropped n)).drops = s.drops + 1 := by
  exact List.countP_cons_of_pos rfl

/-- There are as many reports as statements given up. -/
def Balanced (s : State) : Prop := s.reports.length = s.drops

theorem Balanced.reported {s : State} (h : s.Balanced) (d : Diagnostic) :
    (s.note (.reported d)).reports.length = (s.note (.reported d)).drops + 1 := by
  rw [reports_note_reported, drops_note_reported, List.length_cons, h]

end State

/-- A statement is given up after its one report. -/
def Invariant.balanced : Invariant where
  World := Unit
  stand
    | _, .gone, s => s.reports.length = s.drops + 1
    | _, _, s => s.Balanced
  read h _ := h
  advance h := h
  began rule hp h := by rcases hp with rfl | rfl <;> exact h
  integer h _ _ _ := h
  outOfRange h _ _ _ := h.reported _
  noExpression h _ := h.reported _
  unexpected h _ _ := h.reported _
  body h := h
  ended h _ := h
  attempted h _ := ⟨(), h, id, fun ht => ht.trans (State.drops_note_dropped _ _).symm⟩

/-! ## Whole parses -/

theorem run_ends {stream : TokenStream} :
    (∃ ss t, run stream = .ok ⟨ss, t.log.reverse⟩ ∧ t.Balanced ∧
        ∀ depth, depthBound stream.tokens.length ≤ depth →
          statements false depth (.ofStream stream) = .ok ss t) ∨
      ∃ refusal, run stream = .error refusal := by
  have hstart : (State.ofStream stream).Balanced := rfl
  rcases Invariant.balanced.run_ends (w := ()) hstart with hrun | ⟨refusal, hrun, -⟩
  · exact .inl hrun
  · exact .inr ⟨refusal, hrun⟩

/-- A parse is what the loop over the statements gives: its statements and its log. -/
theorem run_eq_ok_iff {stream : TokenStream} {p : Parse} :
    run stream = .ok p ↔ ∃ t, p.events = t.log.reverse ∧
      statements false (depthBound stream.tokens.length) (.ofStream stream) =
        .ok p.statements t := by
  constructor
  · intro h
    rcases run_ends with ⟨ss, t, hrun, -, hstatements⟩ | ⟨refusal, hrun⟩
    · cases h.symm.trans hrun
      exact ⟨t, rfl, hstatements _ le_rfl⟩
    · cases h.symm.trans hrun
  · obtain ⟨ss, events⟩ := p
    rintro ⟨t, rfl, hstatements⟩
    unfold run
    rw [hstatements]

theorem balanced_of_run {stream : TokenStream} {ss : List Node} {t : State}
    (h : statements false (depthBound stream.tokens.length) (.ofStream stream) = .ok ss t) :
    t.Balanced := by
  rcases run_ends with ⟨ss', t', -, hbalanced, hstatements⟩ | ⟨refusal, hrun⟩
  · cases h.symm.trans (hstatements _ le_rfl)
    exact hbalanced
  · cases hrun.symm.trans (run_eq_ok_iff.mpr ⟨t, rfl, h⟩ : run stream = .ok ⟨ss, t.log.reverse⟩)

/-! ## What is reported -/

/-- The mistakes that the rules report. -/
inductive Reportable : Diagnostic → Prop
  | unexpected {kind : Kind} {token : Token} : kind ∈ expectable → token.kind ≠ kind →
      Reportable ⟨.unexpected kind, token⟩
  | noExpression {token : Token} : token.kind ≠ .int → Reportable ⟨.noExpression, token⟩
  | outOfRange {token : Token} {n : Int} : token.kind = .int →
      Numeral.read token.literal = .ok n → greatestInteger < n → Reportable ⟨.outOfRange, token⟩

/-- Only such mistakes have been reported. -/
def Invariant.reportable : Invariant where
  World := Unit
  stand _ _ s := ∀ d ∈ s.reports, Reportable d
  read h _ := h
  advance h := h
  began _ _ h := h
  integer h _ _ _ := h
  outOfRange h hk hread hlt := List.forall_mem_cons.mpr ⟨.outOfRange hk hread hlt, h⟩
  noExpression h hk := List.forall_mem_cons.mpr ⟨.noExpression hk, h⟩
  unexpected h hmem hk := List.forall_mem_cons.mpr ⟨.unexpected hmem hk, h⟩
  body h := h
  ended h _ := h
  attempted h _ := ⟨(), h, id, id⟩

theorem diagnostics_eq {p : Parse} {t : State} (h : p.events = t.log.reverse) :
    p.diagnostics = t.reports.reverse := by
  unfold Parse.diagnostics State.reports
  rw [h, List.filterMap_reverse]

theorem errors_eq_nil_iff {p : Parse} {t : State} (h : p.events = t.log.reverse) :
    p.errors = [] ↔ t.reports = [] := by
  unfold Parse.errors
  rw [List.map_eq_nil_iff, diagnostics_eq h, List.reverse_eq_nil_iff]

theorem reportable_of_run {stream : TokenStream} {p : Parse} (h : run stream = .ok p) :
    ∀ d ∈ p.diagnostics, Reportable d := by
  obtain ⟨t, hevents, hreportable⟩ := Invariant.reportable.exists_of_run (w := ())
    (List.forall_mem_nil _) h
  rw [diagnostics_eq hevents]
  exact fun d hd => hreportable d (List.mem_reverse.mp hd)

/-- The loop over statements ends at the end of the input or, in a block, at the closing
    brace. -/
theorem statements_ends {inBlock : Bool} {depth : Nat} {s t : State} {ss : List Node}
    (hrun : statements inBlock depth s = .ok ss t) :
    t.current.kind = .eof ∨ (inBlock = true ∧ t.current.kind = .rbrace) := by
  induction depth generalizing s ss with
  | zero => cases hrun
  | succ depth ih =>
    rw [statements, current_bind_run] at hrun
    split at hrun
    · next hend =>
      cases hrun
      exact hend
    · rw [bind_run] at hrun
      split at hrun
      · rw [advance_bind_run, bind_run] at hrun
        split at hrun
        · next hrest =>
          cases hrun
          exact ih hrest
        · cases hrun
      · cases hrun

end Monkey.Parser
