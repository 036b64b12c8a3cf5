import Monkey.Proofs.Session
import Monkey.Shell.Basic

/-!
# Lines that leave no trace

A conversation answers every line in the session that the lines before it have led to.  Blank lines,
questions to the shell and programs with mistakes leave the session as it is: the other lines are
answered as if these had not been typed.
-/

namespace Monkey.Shell

/-! ## Reactions -/

/-- The reactions to lines, up to the first line that asks to leave. -/
def reactions (s : Session) : List String → Except Crash (List Reaction)
  | [] => .ok []
  | line :: rest => do
    let r ← react s line
    if r.ended then pure [r]
    else
      let rs ← reactions r.session rest
      pure (r :: rs)

/-- The conversation that reactions make up, from a session on. -/
def Conversation.ofReactions (s : Session) (rs : List Reaction) : Conversation :=
  ⟨rs.map Reaction.reply, rs.any Reaction.ended, (rs.getLast?.map Reaction.session).getD s⟩

section Reactions

variable {s : Session} {line : String} {rest : List String} {r : Reaction}

theorem reactions_cons_ended (hr : react s line = .ok r) (hended : r.ended = true) :
    reactions s (line :: rest) = .ok [r] := by
  rw [reactions, hr]
  exact if_pos hended

theorem reactions_cons (hr : react s line = .ok r) (hended : r.ended = false) :
    reactions s (line :: rest) = (reactions r.session rest).map (r :: ·) := by
  rw [reactions, hr]
  refine (if_neg (ne_true_of_eq_false hended)).trans ?_
  cases reactions r.session rest <;> rfl

theorem reactions_cons_ok {rs : List Reaction} (h : reactions s (line :: rest) = .ok rs) :
    ∃ r, react s line = .ok r ∧ (r.ended = true ∧ rs = [r] ∨
      r.ended = false ∧ ∃ rs', reactions r.session rest = .ok rs' ∧ rs = r :: rs') := by
  cases hr : react s line with
  | error refusal =>
    rw [reactions, hr] at h
    cases h
  | ok r =>
    refine ⟨r, rfl, ?_⟩
    cases hended : r.ended with
    | true =>
      rw [reactions_cons_ended hr hended] at h
      cases h
      exact .inl ⟨rfl, rfl⟩
    | false =>
      rw [reactions_cons hr hended] at h
      cases hrest : reactions r.session rest with
      | error refusal =>
        rw [hrest] at h
        cases h
      | ok rs' =>
        rw [hrest] at h
        cases h
        exact .inr ⟨rfl, rs', rfl, rfl⟩

theorem Conversation.ofReactions_cons (hended : r.ended = false) (rs : List Reaction) :
    Conversation.ofReactions s (r :: rs) =
      { ofReactions r.session rs with replies := r.reply :: rs.map Reaction.reply } := by
  have hsession : ((r :: rs).getLast?.map Reaction.session).getD s =
      (rs.getLast?.map Reaction.session).getD r.session := by
    rw [List.getLast?_cons, Option.map_some, Option.getD_some, Option.getD_map]
  unfold ofReactions
  rw [hsession, List.any_cons, hended, Bool.false_or, List.map_cons]

/-- A conversation is made up of the reactions to its lines. -/
theorem converse_eq (s : Session) (lines : List String) :
    converse s lines = (reactions s lines).map (.ofReactions s) := by
  induction lines generalizing s with
  | nil => rfl
  | cons line rest ih =>
    rw [converse]
    cases hr : react s line with
    | error refusal =>
      rw [reactions, hr]
      rfl
    | ok r =>
      cases hended : r.ended with
      | true =>
        rw [reactions_cons_ended hr hended]
        have hleft : Conversation.ofReactions s [r] = ⟨[r.reply], true, r.session⟩ := by
          unfold Conversation.ofReactions
          rw [List.any_cons, hended]
          rfl
        exact (if_pos hended).trans (congrArg Except.ok hleft.symm)
      | false =>
        rw [reactions_cons hr hended]
        refine (if_neg (ne_true_of_eq_false hended)).trans ?_
        rw [ih]
        cases reactions r.session rest with
        | error refusal => rfl
        | ok rs => exact congrArg Except.ok (Conversation.ofReactions_cons hended rs).symm

end Reactions

/-! ## Lines that leave no trace -/

/-- A command leaves no trace: it asks for nothing, for something to be shown, or for a program with
    mistakes to be run. -/
inductive Command.Traceless : Command → Prop
  | nothing : Traceless .nothing
  | tokens (source : String) : Traceless (.tokens source)
  | tree (source : String) : Traceless (.tree source)
  | environment : Traceless .environment
  | help : Traceless .help
  | rejected {source : String} {p : Parse} : parse source = .ok p → p.errors ≠ [] →
      Traceless (.run source)

/-- The session is the same after a line that leaves no trace, and the conversation goes on. -/
theorem react_of_traceless {s : Session} {line : String} {r : Reaction}
    (hline : (Command.ofLine line).Traceless) (hr : react s line = .ok r) :
    r.session = s ∧ r.ended = false := by
  unfold react at hr
  cases hcommand : Command.ofLine line with
  | leave =>
    rw [hcommand] at hline
    cases hline
  | nothing | tokens | environment | help =>
    rw [hcommand] at hr
    cases hr
    exact ⟨rfl, rfl⟩
  | tree source =>
    rw [hcommand] at hr
    cases hparse : parse source with
    | error refusal =>
      simp only [hparse] at hr
      cases hr
    | ok p =>
      simp only [hparse] at hr
      cases hr
      exact ⟨rfl, rfl⟩
  | run source =>
    rw [hcommand] at hline hr
    cases hline with
    | @rejected _ p hparse herrors =>
      have hdiagnostics : p.diagnostics.isEmpty = false := by
        cases hp : p.diagnostics with
        | nil => exact absurd (congrArg (List.map Diagnostic.message) hp) herrors
        | cons => rfl
      simp only [s.run_eq hparse, hdiagnostics] at hr
      cases hr
      exact ⟨rfl, rfl⟩

/-- The lines that are marked to be kept. -/
def keptLines (marked : List (String × Bool)) : List String :=
  (marked.filter Prod.snd).map Prod.fst

/-- The reactions to lines that are marked to be kept. -/
def keptReactions (marked : List (String × Bool)) (rs : List Reaction) : List Reaction :=
  ((marked.zip rs).filter fun p => p.1.2).map Prod.snd

@[simp] theorem keptReactions_cons (line : String) (kept : Bool) (marked : List (String × Bool))
    (r : Reaction) (rs : List Reaction) : keptReactions ((line, kept) :: marked) (r :: rs) =
      if kept then r :: keptReactions marked rs else keptReactions marked rs := by
  cases kept <;> rfl

@[simp] theorem keptReactions_nil (marked : List (String × Bool)) :
    keptReactions marked [] = [] := by
  rw [keptReactions, List.zip_nil_right]
  rfl

/-- Without lines that leave no trace, the reactions to the other lines are the same, and so is the
    session in the end. -/
theorem reactions_keptLines {s : Session} {marked : List (String × Bool)} {rs : List Reaction}
    (hdropped : ∀ l ∈ marked, l.2 = false → (Command.ofLine l.1).Traceless)
    (h : reactions s (marked.map Prod.fst) = .ok rs) :
    reactions s (keptLines marked) = .ok (keptReactions marked rs) ∧
      (Conversation.ofReactions s (keptReactions marked rs)).session =
        (Conversation.ofReactions s rs).session ∧
      (Conversation.ofReactions s (keptReactions marked rs)).left =
        (Conversation.ofReactions s rs).left := by
  induction marked generalizing s rs with
  | nil =>
    cases h
    exact ⟨rfl, rfl, rfl⟩
  | cons l marked ih =>
    obtain ⟨line, kept⟩ := l
    rw [List.forall_mem_cons] at hdropped
    obtain ⟨r, hr, ⟨hended, rfl⟩ | ⟨hended, rs', hrest, rfl⟩⟩ := reactions_cons_ok h
    · cases kept with
      | true =>
        rw [keptReactions_cons, keptReactions_nil, if_pos rfl]
        exact ⟨reactions_cons_ended hr hended, rfl, rfl⟩
      | false =>
        rw [(react_of_traceless (hdropped.1 rfl) hr).2] at hended
        cases hended
    · obtain ⟨hreactions, hsession, hleft⟩ := ih hdropped.2 hrest
      rw [Conversation.ofReactions_cons hended]
      cases kept with
      | true =>
        rw [keptReactions_cons, if_pos rfl, Conversation.ofReactions_cons hended]
        refine ⟨?_, hsession, hleft⟩
        exact (reactions_cons hr hended).trans (congrArg (Except.map _) hreactions)
      | false =>
        rw [(react_of_traceless (hdropped.1 rfl) hr).1] at hreactions hsession hleft ⊢
        exact ⟨hreactions, hsession, hleft⟩

/-- Some lines of a conversation are deleted that leave no trace.  The conversation can still be
    held: the other lines are answered as before, in their order and with the same session, and so
    with the same bindings, after each of them.  It is left as before, with the same session. -/
theorem converse_keptLines {s : Session} {marked : List (String × Bool)} {c : Conversation}
    (hdropped : ∀ l ∈ marked, l.2 = false → (Command.ofLine l.1).Traceless)
    (h : converse s (marked.map Prod.fst) = .ok c) :
    ∃ rs c', reactions s (marked.map Prod.fst) = .ok rs ∧ c.replies = rs.map Reaction.reply ∧
      reactions s (keptLines marked) = .ok (keptReactions marked rs) ∧
      converse s (keptLines marked) = .ok c' ∧
      c'.replies = (keptReactions marked rs).map Reaction.reply ∧
      c'.session = c.session ∧ c'.left = c.left := by
  rw [converse_eq] at h
  cases hrs : reactions s (marked.map Prod.fst) with
  | error refusal =>
    rw [hrs] at h
    cases h
  | ok rs =>
    rw [hrs] at h
    cases h
    obtain ⟨hreactions, hsession, hleft⟩ := reactions_keptLines hdropped hrs
    refine ⟨rs, _, rfl, rfl, hreactions, ?_, rfl, hsession, hleft⟩
    rw [converse_eq, hreactions]
    rfl

/-- Between the definition of a closure and its call stand a blank line, a question of every kind,
    and a program that would bind the name again but has a mistake. -/
theorem converse_keptLines_closure :
    let s := Session.start { callLimit := 100 }
    let marked : List (String × Bool) :=
      [("let x = 1; let f = fn() \x7b x + 1 \x7d;", true), ("  ", false), (":tokens f()", false),
        (":ast f(x)", false), (" :env ", false), (":help", false), ("let x = 5; let y = ;", false),
        ("puts(f()); g", true), ("exit", true), ("x", true)]
    (∀ l ∈ marked, l.2 = false → (Command.ofLine l.1).Traceless) ∧
      ∃ c c', converse s (marked.map Prod.fst) = .ok c ∧ converse s (keptLines marked) = .ok c' ∧
        c'.replies = [[], ["2", "ERROR: identifier not found: g"], []] ∧
        c'.session = c.session ∧ c'.left = c.left := by
  intro s marked
  have hdropped : ∀ l ∈ marked, l.2 = false → (Command.ofLine l.1).Traceless := by
    obtain ⟨p, hparse, herrors⟩ : ∃ p, parse "let x = 5; let y = ;" = .ok p ∧ p.errors ≠ [] :=
      ⟨_, rfl, nofun⟩
    simp only [marked, List.forall_mem_cons]
    exact ⟨nofun, fun _ => .nothing, fun _ => .tokens "f()", fun _ => .tree "f(x)",
      fun _ => .environment, fun _ => .help, fun _ => .rejected hparse herrors, nofun, nofun, nofun,
      List.forall_mem_nil _⟩
  have hheld : (converse s (marked.map Prod.fst)).isOk := by decide +kernel
  have hreplies : ((converse s (keptLines marked)).map Conversation.replies).toOption =
      some [[], ["2", "ERROR: identifier not found: g"], []] := by decide +kernel
  cases h : converse s (marked.map Prod.fst) with
  | error refusal =>
    rw [h] at hheld
    cases hheld
  | ok c =>
    obtain ⟨rs, c', -, -, -, hkept, -, hsession, hleft⟩ := converse_keptLines hdropped h
    rw [hkept] at hreplies
    exact ⟨hdropped, c, c', rfl, hkept, Option.some.inj hreplies, hsession, hleft⟩

end Monkey.Shell
