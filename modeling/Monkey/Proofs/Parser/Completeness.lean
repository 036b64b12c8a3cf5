import Monkey.Proofs.Parser.Accounts
import Monkey.Proofs.Parser.Cursor

/-!
# Completeness of the parser

Every derivation of the words of a stream is what the parser finds, and it reports no
mistake.  The rules call one another with a depth that falls, so the depth needed for the
words that a rule is to read is part of every statement here.
-/

namespace Monkey.Parser

open Grammar

/-- The rule gives a result from `s`, reports nothing, and the result and the state reached
    satisfy a condition. -/
def Gives {α : Type} (x : Action α) (s : State) (post : α → State → Prop) : Prop :=
  EofLast s.rest → ∃ a t, x s = .ok a t ∧ t.reports = s.reports ∧ EofLast t.rest ∧ post a t

namespace Gives

variable {α β : Type} {s : State} {post : β → State → Prop}

protected theorem pure {b : β} (h : post b s) : Gives (pure b) s post := fun hlast =>
  ⟨b, s, rfl, rfl, hlast, h⟩

theorem bind {x : Action α} {f : α → Action β} {mid : α → State → Prop} (hx : Gives x s mid)
    (hf : ∀ a t, mid a t → Gives (f a) t post) : Gives (x >>= f) s post := by
  intro hlast
  obtain ⟨a, t, hrun, hreports, hlast, hmid⟩ := hx hlast
  obtain ⟨b, u, hrun', hreports', hlast, hpost⟩ := hf a t hmid hlast
  refine ⟨b, u, ?_, hreports'.trans hreports, hlast, hpost⟩
  rw [bind_run_ok hrun, hrun']

theorem current_bind {f : Token → Action β} (h : Gives (f s.current) s post) :
    Gives (current >>= f) s post := h

theorem currentName_bind {f : Name → Action β}
    (h : Gives (f ⟨s.current.literal, some s.current⟩) s post) :
    Gives (currentName >>= f) s post := h

theorem upcoming_bind {f : Token → Action β} (h : Gives (f s.upcoming) s post) :
    Gives (upcoming >>= f) s post := h

theorem begin_bind {rule : Rule} {f : Token → Action β}
    (h : Gives (f s.current) (s.note (.began rule s.current)) post) :
    Gives (begin rule >>= f) s post := h

theorem advance_bind {f : Unit → Action β} (h : Gives (f ()) s.advance post) :
    Gives (advance >>= f) s post := fun hlast =>
  h (hlast.suffix (List.tail_suffix _))

theorem expect_bind {kind : Kind} {f : Unit → Action β} (hk : s.upcoming.kind = kind)
    (h : Gives (f ()) s.advance post) : Gives (expect kind >>= f) s post := by
  intro hlast
  obtain ⟨b, t, hrun, hrest⟩ := h (hlast.suffix (List.tail_suffix _))
  refine ⟨b, t, ?_, hrest⟩
  rw [bind_run_ok (by rw [expect_run, if_pos hk]), hrun]

/-- The semicolon that may end a statement. -/
theorem skip_bind {f : Unit → Action β} {r : List Word} (h : Terminates s.ahead r)
    (hf : ∀ t, t.ahead = r → Gives (f ()) t post) : Gives (skip .semicolon >>= f) s post := by
  have hskip : Gives (skip .semicolon) s fun _ t => t.ahead = r := by
    intro hlast
    rw [skip_run]
    generalize hahead : s.ahead = j at h
    cases h with
    | semicolon =>
      obtain ⟨hk, -, hrest⟩ := State.upcoming_of_ahead hahead
      rw [if_pos hk]
      exact ⟨(), s.advance, rfl, rfl, hlast.suffix (List.tail_suffix _), hrest⟩
    | absent hnext =>
      rw [← hahead] at hnext
      have hk := State.upcoming_of_next hnext ⟨by decide, rfl⟩
      rw [if_neg hk.1]
      exact ⟨(), s, rfl, rfl, hlast, hahead⟩
  exact bind hskip fun _ => hf

theorem attempt {x : Action Node} {post : Node → State → Prop}
    (h : Gives x (s.note (.attempted s.passed)) post) :
    Gives (attempt x) s fun n? t => ∃ n, n? = some n ∧ post n t := by
  intro hlast
  obtain ⟨n, t, hrun, hreports, hlast, hpost⟩ := h hlast
  refine ⟨some n, t, ?_, hreports, hlast, n, rfl, hpost⟩
  unfold Parser.attempt
  rw [hrun]

end Gives

/-! ## Climbing -/

/-- Reading an expression comes to climbing on from a tree, with the words `r` ahead and
    depth enough. -/
def Leads (depth : Nat) (bound : Precedence) (s : State) (e : Node) (r : List Word) : Prop :=
  EofLast s.rest → ∃ d e' t, expression depth bound s = climb d bound e' t ∧ e'.strip = e ∧
    t.ahead = r ∧ t.reports = s.reports ∧ EofLast t.rest ∧
    depth + r.length ≤ d + s.words.length

/-- A rule has given a tree and has the words `r` ahead. -/
def Given (e : Node) (r : List Word) (e' : Node) (t : State) : Prop :=
  e'.strip = e ∧ t.ahead = r

namespace Leads

variable {depth : Nat} {bound : Precedence} {s : State} {e f : Node} {r : List Word}

theorem of_operand (h : Gives (operand depth) s (Given e r))
    (hlt : r.length < s.words.length) : Leads (depth + 1) bound s e r := by
  intro hlast
  obtain ⟨e', t, hrun, hreports, hlast, hstrip, hahead⟩ := h hlast
  refine ⟨depth, e', t, ?_, hstrip, hahead, hreports, hlast, by omega⟩
  rw [expression, bind_run_ok hrun]

/-- Climbing ends before a word that does not bind more tightly than the bound. -/
theorem stop (h : Leads depth bound s e r) (hnext : Next (precedence · ≤ bound) r)
    (hbound : Precedence.lowest ≤ bound) (hdepth : s.words.length < depth + r.length) :
    Gives (expression depth bound) s (Given e r) := by
  intro hlast
  obtain ⟨d, e', t, hrun, hstrip, hahead, hreports, hlast, hd⟩ := h hlast
  refine ⟨e', t, ?_, hreports, hlast, hstrip, hahead⟩
  rw [← hahead] at hnext
  have hle : precedence t.upcoming.kind ≤ bound := State.upcoming_of_next hnext hbound
  obtain ⟨d, rfl⟩ : ∃ d', d = d' + 1 := Nat.exists_eq_add_one.mpr (by omega)
  rw [hrun, climb, upcoming_bind_run, if_neg (Nat.not_lt.mpr hle)]
  rfl

/-- Climbing goes on with a word that binds more tightly than the bound. -/
theorem extend {w : Word} {j : List Word} (h : Leads depth bound s e (w :: j))
    (hbind : bound < precedence w.kind) (hdepth : 8 * s.words.length + 5 ≤ depth)
    (hlt : j.length + 1 < s.words.length) (hle : r.length ≤ j.length)
    (hextend : ∀ d e' t, e'.strip = e → t.words = w :: j → 8 * j.length + 8 ≤ d →
      Gives (extend d e') t (Given f r)) : Leads depth bound s f r := by
  intro hlast
  obtain ⟨d, e', t, hrun, hstrip, hahead, hreports, hlast, hd⟩ := h hlast
  rw [List.length_cons] at hd
  obtain ⟨d, rfl⟩ : ∃ d', d = d' + 1 := Nat.exists_eq_add_one.mpr (by omega)
  obtain ⟨hk, -, -⟩ := State.upcoming_of_ahead hahead
  obtain ⟨f', u, hrun', hreports', hlast, hstrip, hahead'⟩ :=
    hextend d e' t.advance hstrip hahead (by omega) (hlast.suffix (List.tail_suffix _))
  refine ⟨d, f', u, ?_, hstrip, hahead', hreports'.trans hreports, hlast, by omega⟩
  rw [hrun, climb, upcoming_bind_run, hk, if_pos hbind, advance_bind_run, bind_run_ok hrun']

end Leads

/-! ## Derivations are found -/

/-- The kinds that close a list of expressions. -/
def IsClosing (kind : Kind) : Prop := kind = .rparen ∨ kind = .rbracket

/-- The rules find a phrase at words that begin with it. -/
def Finds : Phrase → List Word → List Word → Prop
  | .primary e, i, r => ∀ depth bound s, bound ≤ Precedence.prefixed → s.words = i →
      8 * i.length + 5 ≤ depth → Leads depth bound s e r
  | .unary e, i, r => Next (precedence · ≤ Precedence.prefixed) r →
      ∀ depth bound s, bound ≤ Precedence.prefixed → s.words = i →
      8 * i.length + 5 ≤ depth → Leads depth bound s e r
  | .expression level e, i, r => level ≤ Precedence.prefixed → Next (precedence · ≤ level) r →
      ∀ depth bound s, bound ≤ Precedence.lowest ∨ bound < level → s.words = i →
      8 * i.length + 5 ≤ depth → Leads depth bound s e r
  | .items closing es, i, r => IsClosing closing → ∀ depth s, s.ahead = i →
      8 * i.length + 6 ≤ depth →
      Gives (items closing depth) s fun es' t => Node.stripAll es' = es ∧ t.ahead = r
  | .moreItems closing es, i, r => IsClosing closing → ∀ depth s, s.ahead = i →
      8 * i.length + 1 ≤ depth →
      Gives (moreItems closing depth) s fun es' t => Node.stripAll es' = es ∧ t.ahead = r
  | .parameters names, i, r => ∀ depth s, s.ahead = i → 8 * i.length + 1 ≤ depth →
      Gives (parameters depth) s fun names' t => names'.map Name.bare = names ∧ t.ahead = r
  | .moreParameters names, i, r => ∀ depth s, s.ahead = i → 8 * i.length + 1 ≤ depth →
      Gives (moreParameters depth) s fun names' t => names'.map Name.bare = names ∧ t.ahead = r
  | .pairs ps, i, r => ∀ depth s, s.ahead = i → 8 * i.length + 6 ≤ depth →
      Gives (pairs depth) s fun ps' t => Node.stripPairs ps' = ps ∧ t.ahead = r
  | .block b, i, r => ∀ depth s, s.words = i → 8 * i.length ≤ depth →
      s.current.kind = .lbrace ∧ Gives (block depth) s (Given b r)
  | .statement n, i, r => ∀ depth s, s.words = i → 8 * i.length + 6 ≤ depth →
      Gives (statement depth) s (Given n r)
  | .statements ss, i, r => ∀ inBlock depth s, r = [] ∨ (inBlock = true ∧
      ∃ l j, r = ⟨.rbrace, l⟩ :: j) → s.words = i → 8 * i.length + 7 ≤ depth →
      Gives (statements inBlock depth) s fun ss' t => Node.stripAll ss' = ss ∧ t.words = r

theorem moreItems_endsHere {closing : Kind} (hclosing : IsClosing closing) {es : List Node}
    {j r : List Word} (h : Derives (.moreItems closing es) j r) : Next EndsHere j := by
  cases h with
  | noMoreItems => exact next_cons (by obtain rfl | rfl := hclosing <;> rfl)
  | moreItems => exact next_cons rfl

namespace Finds

variable {e f : Node} {i j m r : List Word}

/-- An expression that ends where the context goes on. -/
theorem given (h : Finds (.expression Precedence.lowest e) i r) (hnext : Next EndsHere r)
    {depth : Nat} {s : State} (hwords : s.words = i) (hdepth : 8 * i.length + 5 ≤ depth) :
    Gives (expression depth Precedence.lowest) s (Given e r) := by
  have hnext : Next (precedence · ≤ Precedence.lowest) r := fun w hw => Nat.le_of_eq (hnext w hw)
  have hleads := h (by decide) hnext depth Precedence.lowest s (.inl le_rfl) hwords hdepth
  exact hleads.stop hnext le_rfl (by rw [hwords]; omega)

/-- A tree that the operand rule gives. -/
theorem of_operand (hbegins : Consumes Starts i r)
    (h : ∀ depth s, s.words = i → 8 * i.length + 4 ≤ depth →
      Gives (operand depth) s (Given e r)) : Finds (.primary e) i r := by
  intro depth bound s _ hwords hdepth
  obtain ⟨depth, rfl⟩ : ∃ d, depth = d + 1 := Nat.exists_eq_add_one.mpr (by omega)
  exact .of_operand (h depth s hwords (by omega)) (by rw [hwords]; exact hbegins.lt)

/-- A tree that a single word gives. -/
theorem of_word {w : Word} (hw : Starts w.kind)
    (h : ∀ depth s, s.current.kind = w.kind → s.current.literal = w.literal →
      ∃ e', operand (depth + 1) s = .ok e' s ∧ e'.strip = e) :
    Finds (.primary e) (w :: r) r := by
  apply of_operand ⟨w, r, rfl, hw, le_rfl⟩
  intro depth s hwords hdepth hlast
  obtain ⟨depth, rfl⟩ : ∃ d, depth = d + 1 := Nat.exists_eq_add_one.mpr (by omega)
  obtain ⟨hk, hl, hahead⟩ := State.current_of_words hwords
  obtain ⟨e', hrun, hstrip⟩ := h depth s hk hl
  exact ⟨e', s, hrun, rfl, hlast, hstrip, hahead⟩

theorem identifier {x : String} :
    Finds (.primary (.identifier ⟨x, none⟩)) (⟨.ident, x⟩ :: r) r := by
  refine of_word (by simp [Starts]) fun depth s hk hl =>
    ⟨.identifier ⟨s.current.literal, some s.current⟩, ?_, ?_⟩
  · rw [operand, current_bind_run, hk]
    rfl
  · rw [Node.strip, Name.bare, hl]

theorem integer {l : String} {n : Int} (hread : Numeral.read l = .ok n)
    (hle : n ≤ greatestInteger) : Finds (.primary (.integer n none)) (⟨.int, l⟩ :: r) r := by
  refine of_word (by simp [Starts]) fun depth s hk hl => ⟨.integer n (some s.current), ?_, rfl⟩
  rw [operand, current_bind_run, hk]
  simp only [integerLiteral, hl, hread, if_neg (Int.not_lt.mpr hle)]
  rfl

theorem string {x : String} : Finds (.primary (.string x none)) (⟨.string, x⟩ :: r) r := by
  refine of_word (by simp [Starts]) fun depth s hk hl =>
    ⟨.string s.current.literal (some s.current), ?_, ?_⟩
  · rw [operand, current_bind_run, hk]
    rfl
  · rw [Node.strip, hl]

theorem trueLiteral {l : String} :
    Finds (.primary (.boolean true none)) (⟨.trueKeyword, l⟩ :: r) r := by
  refine of_word (by simp [Starts]) fun depth s hk _ => ⟨.boolean true (some s.current), ?_, rfl⟩
  rw [operand, current_bind_run, hk]
  rfl

theorem falseLiteral {l : String} :
    Finds (.primary (.boolean false none)) (⟨.falseKeyword, l⟩ :: r) r := by
  refine of_word (by simp [Starts]) fun depth s hk _ => ⟨.boolean false (some s.current), ?_, rfl⟩
  rw [operand, current_bind_run, hk]
  rfl

theorem grouped {l l' : String} (hbegins : Consumes Starts i (⟨.rparen, l'⟩ :: r))
    (ih : Finds (.expression Precedence.lowest e) i (⟨.rparen, l'⟩ :: r)) :
    Finds (.primary e) (⟨.lparen, l⟩ :: i) r := by
  refine of_operand ⟨_, _, rfl, by simp [Starts], Nat.le_of_lt (Nat.lt_of_succ_lt hbegins.lt)⟩ ?_
  intro depth s hwords hdepth
  rw [List.length_cons] at hdepth
  obtain ⟨depth, rfl⟩ : ∃ d, depth = d + 1 := Nat.exists_eq_add_one.mpr (by omega)
  obtain ⟨hk, -, hahead⟩ := State.current_of_words hwords
  rw [operand]
  refine Gives.current_bind ?_
  rw [hk]
  refine Gives.advance_bind ?_
  refine Gives.bind (ih.given (next_cons rfl) hahead (by omega)) fun e' t ht => ?_
  obtain ⟨hclose, -, hrest⟩ := State.upcoming_of_ahead ht.2
  exact Gives.expect_bind hclose (Gives.pure ⟨ht.1, hrest⟩)

/-- A rule that starts at a word starts with that word current. -/
theorem current_bind {α : Type} {kind : Kind} {l : String} {x : Token → Action α} {s : State}
    {post : α → State → Prop} (hwords : s.words = ⟨kind, l⟩ :: i)
    (h : s.current.kind = kind → s.ahead = i → Gives (x s.current) s post) :
    Gives (current >>= x) s post := by
  obtain ⟨hk, -, hahead⟩ := State.current_of_words hwords
  exact Gives.current_bind (h hk hahead)

/-- A word that must come next. -/
theorem expect_bind {α : Type} {kind : Kind} {l : String} {x : Unit → Action α} {s : State}
    {post : α → State → Prop} (hahead : s.ahead = ⟨kind, l⟩ :: i)
    (h : s.upcoming.literal = l → s.advance.ahead = i → Gives (x ()) s.advance post) :
    Gives (expect kind >>= x) s post := by
  obtain ⟨hk, hl, hrest⟩ := State.upcoming_of_ahead hahead
  exact Gives.expect_bind hk (h hl hrest)

theorem conditional {l l₁ l₂ : String} {c t : Node}
    (hbegins : Consumes Starts (⟨.ifKeyword, l⟩ :: ⟨.lparen, l₁⟩ :: i) r)
    (hle : j.length + 1 ≤ i.length)
    (ihc : Finds (.expression Precedence.lowest c) i (⟨.rparen, l₂⟩ :: j))
    (iht : Finds (.block t) j r) (hnext : Next (· ≠ .elseKeyword) r) :
    Finds (.primary (.conditional c t none none))
      (⟨.ifKeyword, l⟩ :: ⟨.lparen, l₁⟩ :: i) r := by
  apply of_operand hbegins
  intro depth s hwords hdepth
  simp only [List.length_cons] at hdepth
  obtain ⟨depth, rfl⟩ : ∃ d, depth = d + 1 := Nat.exists_eq_add_one.mpr (by omega)
  rw [operand]
  apply current_bind hwords
  intro hk hahead
  rw [hk]
  refine Gives.begin_bind (expect_bind hahead fun _ hahead => Gives.advance_bind ?_)
  refine Gives.bind (ihc.given (next_cons rfl) hahead (by omega)) fun c' s₁ hc => ?_
  apply expect_bind hc.2
  intro _ hahead
  obtain ⟨hbrace, hblock⟩ := iht depth s₁.advance.advance hahead (by omega)
  refine Gives.expect_bind hbrace ?_
  refine Gives.bind hblock fun t' s₂ ht => Gives.upcoming_bind ?_
  rw [← ht.2] at hnext
  rw [if_neg (State.upcoming_of_next hnext (by decide))]
  refine Gives.pure ⟨?_, ht.2⟩
  rw [Node.strip, hc.1, ht.1, Node.stripOption]

theorem conditionalElse {l l₁ l₂ l₃ : String} {c t a : Node}
    (hbegins : Consumes Starts (⟨.ifKeyword, l⟩ :: ⟨.lparen, l₁⟩ :: i) r)
    (hle : j.length + 1 ≤ i.length) (hlt : m.length + 1 < j.length)
    (ihc : Finds (.expression Precedence.lowest c) i (⟨.rparen, l₂⟩ :: j))
    (iht : Finds (.block t) j (⟨.elseKeyword, l₃⟩ :: m)) (iha : Finds (.block a) m r) :
    Finds (.primary (.conditional c t (some a) none))
      (⟨.ifKeyword, l⟩ :: ⟨.lparen, l₁⟩ :: i) r := by
  apply of_operand hbegins
  intro depth s hwords hdepth
  simp only [List.length_cons] at hdepth
  obtain ⟨depth, rfl⟩ : ∃ d, depth = d + 1 := Nat.exists_eq_add_one.mpr (by omega)
  rw [operand]
  apply current_bind hwords
  intro hk hahead
  rw [hk]
  refine Gives.begin_bind (expect_bind hahead fun _ hahead => Gives.advance_bind ?_)
  refine Gives.bind (ihc.given (next_cons rfl) hahead (by omega)) fun c' s₁ hc => ?_
  apply expect_bind hc.2
  intro _ hahead
  obtain ⟨hbrace, hblock⟩ := iht depth s₁.advance.advance hahead (by omega)
  refine Gives.expect_bind hbrace ?_
  refine Gives.bind hblock fun t' s₂ ht => Gives.upcoming_bind ?_
  obtain ⟨helse, -, hahead⟩ := State.upcoming_of_ahead ht.2
  rw [if_pos helse]
  refine Gives.advance_bind ?_
  obtain ⟨hbrace, hblock⟩ := iha depth s₂.advance.advance hahead (by omega)
  refine Gives.expect_bind hbrace ?_
  refine Gives.bind hblock fun a' s₃ ha => Gives.pure ⟨?_, ha.2⟩
  rw [Node.strip, hc.1, ht.1, Node.stripOption, ha.1]

theorem function {l l₁ : String} {names : List Name} {b : Node}
    (hbegins : Consumes Starts (⟨.function, l⟩ :: ⟨.lparen, l₁⟩ :: i) r)
    (hlt : j.length < i.length) (ihn : Finds (.parameters names) i j)
    (ihb : Finds (.block b) j r) :
    Finds (.primary (.function names b none)) (⟨.function, l⟩ :: ⟨.lparen, l₁⟩ :: i) r := by
  apply of_operand hbegins
  intro depth s hwords hdepth
  simp only [List.length_cons] at hdepth
  obtain ⟨depth, rfl⟩ : ∃ d, depth = d + 1 := Nat.exists_eq_add_one.mpr (by omega)
  rw [operand]
  apply current_bind hwords
  intro hk hahead
  rw [hk]
  refine Gives.begin_bind (expect_bind hahead fun _ hahead => ?_)
  apply Gives.bind (ihn depth _ hahead (by omega))
  intro names' s₁ hn
  obtain ⟨hbrace, hblock⟩ := ihb depth s₁.advance hn.2 (by omega)
  refine Gives.expect_bind hbrace (Gives.bind hblock fun b' s₂ hb => Gives.pure ⟨?_, hb.2⟩)
  rw [Node.strip, hn.1, hb.1]

theorem array {l : String} {es : List Node} (hle : r.length ≤ i.length)
    (ih : Finds (.items .rbracket es) i r) :
    Finds (.primary (.array es none)) (⟨.lbracket, l⟩ :: i) r := by
  apply of_operand ⟨_, _, rfl, by simp [Starts], hle⟩
  intro depth s hwords hdepth
  rw [List.length_cons] at hdepth
  obtain ⟨depth, rfl⟩ : ∃ d, depth = d + 1 := Nat.exists_eq_add_one.mpr (by omega)
  rw [operand]
  apply current_bind hwords
  intro hk hahead
  rw [hk]
  apply Gives.bind (ih (.inr rfl) depth s hahead (by omega))
  intro es' t hes
  exact Gives.pure ⟨by rw [Node.strip, hes.1], hes.2⟩

theorem hash {l : String} {ps : List (Node × Node)} (hle : r.length ≤ i.length)
    (ih : Finds (.pairs ps) i r) : Finds (.primary (.hash ps none)) (⟨.lbrace, l⟩ :: i) r := by
  apply of_operand ⟨_, _, rfl, by simp [Starts], hle⟩
  intro depth s hwords hdepth
  rw [List.length_cons] at hdepth
  obtain ⟨depth, rfl⟩ : ∃ d, depth = d + 1 := Nat.exists_eq_add_one.mpr (by omega)
  rw [operand]
  apply current_bind hwords
  intro hk hahead
  rw [hk]
  refine Gives.begin_bind ?_
  refine Gives.bind (ih depth _ hahead (by omega)) fun ps' t hps => ?_
  exact Gives.pure ⟨by rw [Node.strip, hps.1], hps.2⟩

theorem call {l : String} {as : List Node} (hbegins : Consumes Starts i (⟨.lparen, l⟩ :: j))
    (hlt : r.length < j.length) (ihf : Finds (.primary f) i (⟨.lparen, l⟩ :: j))
    (iha : Finds (.items .rparen as) j r) : Finds (.primary (.call f as none)) i r := by
  intro depth bound s hbound hwords hdepth
  have hlong := hbegins.lt
  rw [← hwords] at hlong hdepth
  have hbind : Precedence.prefixed < precedence .lparen := by decide
  refine (ihf depth bound s hbound hwords (by rwa [← hwords])).extend
    (Nat.lt_of_le_of_lt hbound hbind) hdepth hlong (Nat.le_of_lt hlt) ?_
  intro d f' t hf hwords hd
  obtain ⟨d, rfl⟩ : ∃ d', d = d' + 1 := Nat.exists_eq_add_one.mpr (by omega)
  rw [extend]
  apply current_bind hwords
  intro hk hahead
  rw [hk]
  refine Gives.begin_bind (Gives.bind (iha (.inl rfl) d _ hahead (by omega)) fun as' u has => ?_)
  exact Gives.pure ⟨by rw [Node.strip, hf, has.1], has.2⟩

theorem index {l l' : String} (hbegins : Consumes Starts i (⟨.lbracket, l⟩ :: j))
    (hlt : r.length + 1 < j.length) (ihe : Finds (.primary e) i (⟨.lbracket, l⟩ :: j))
    (ihf : Finds (.expression Precedence.lowest f) j (⟨.rbracket, l'⟩ :: r)) :
    Finds (.primary (.index e f none)) i r := by
  intro depth bound s hbound hwords hdepth
  have hlong := hbegins.lt
  rw [← hwords] at hlong hdepth
  have hbind : Precedence.prefixed < precedence .lbracket := by decide
  refine (ihe depth bound s hbound hwords (by rwa [← hwords])).extend
    (Nat.lt_of_le_of_lt hbound hbind) hdepth hlong (by omega) ?_
  intro d e' t he hwords hd
  obtain ⟨d, rfl⟩ : ∃ d', d = d' + 1 := Nat.exists_eq_add_one.mpr (by omega)
  rw [extend]
  apply current_bind hwords
  intro hk hahead
  rw [hk]
  refine Gives.begin_bind (Gives.advance_bind ?_)
  refine Gives.bind (ihf.given (next_cons rfl) hahead (by omega)) fun f' u hf => ?_
  refine expect_bind hf.2 fun _ hrest => Gives.pure ⟨?_, hrest⟩
  rw [Node.strip, he, hf.1]

theorem prefixed {kind : Kind} {o : String} (hkind : IsPrefix kind) (hbegins : Consumes Starts i r)
    (ih : Finds (.unary e) i r) : Finds (.unary (.prefixed o e none)) (⟨kind, o⟩ :: i) r := by
  intro hnext depth bound s hbound hwords hdepth
  have hlt := hbegins.lt
  rw [List.length_cons] at hdepth
  obtain ⟨depth, rfl⟩ : ∃ d, depth = d + 2 := Nat.exists_eq_add_of_le' (by omega)
  refine .of_operand ?_ (by rw [hwords, List.length_cons]; omega)
  obtain ⟨hk, hl, hahead⟩ := State.current_of_words hwords
  have hright : ∀ t : State, t.words = i →
      Gives (expression depth Precedence.prefixed) t (Given e r) := by
    intro t ht
    have hleads := ih hnext depth Precedence.prefixed t le_rfl ht (by omega)
    exact hleads.stop hnext (by decide) (by rw [ht]; omega)
  rw [operand]
  refine Gives.current_bind ?_
  rw [hk]
  have hbody : Gives (Parser.begin .prefixed >>= fun token => Parser.advance >>= fun _ =>
      expression depth Precedence.prefixed >>= fun right =>
        (pure (.prefixed token.literal right (some token)) : Action Node)) s
      (Given (.prefixed o e none) r) := by
    refine Gives.begin_bind (Gives.advance_bind (Gives.bind (hright _ hahead) fun e' t he => ?_))
    exact Gives.pure ⟨by rw [Node.strip, he.1, hl], he.2⟩
  rcases hkind with rfl | rfl
  · exact hbody
  · exact hbody

theorem operand {level : Precedence} (ih : Finds (.unary e) i r) :
    Finds (.expression level e) i r := by
  intro hlevel hnext depth bound s hbound hwords hdepth
  refine ih (fun w hw => Nat.le_trans (hnext w hw) hlevel) depth bound s ?_ hwords hdepth
  rcases hbound with hlow | hlt
  · exact Nat.le_trans hlow (by decide)
  · exact Nat.le_trans (Nat.le_of_lt hlt) hlevel

theorem binary {level : Precedence} {kind : Kind} {o : String} (hkind : IsBinary kind)
    (hlevel : level ≤ precedence kind) (hbegins : Consumes Starts i (⟨kind, o⟩ :: j))
    (hlt : r.length < j.length) (ihe : Finds (.expression (precedence kind) e) i (⟨kind, o⟩ :: j))
    (ihf : Finds (.expression (precedence kind + 1) f) j r) :
    Finds (.expression level (.binary e o f none)) i r := by
  intro _ hnext depth bound s hbound hwords hdepth
  have hlong := hbegins.lt
  have hbind : bound < precedence kind := by
    rcases hbound with hlow | hlt
    · exact Nat.lt_of_le_of_lt hlow hkind.1
    · exact Nat.lt_of_lt_of_le hlt hlevel
  have hleads := ihe (Nat.le_of_lt hkind.2) (next_cons le_rfl) depth bound s (.inr hbind)
    hwords hdepth
  rw [← hwords] at hlong hdepth
  refine hleads.extend hbind hdepth hlong (Nat.le_of_lt hlt) ?_
  intro d e' t he hwords hd
  obtain ⟨d, rfl⟩ : ∃ d', d = d' + 1 := Nat.exists_eq_add_one.mpr (by omega)
  obtain ⟨hk, hl, hahead⟩ := State.current_of_words hwords
  have hnext : Next (precedence · ≤ precedence kind) r := fun w hw =>
    Nat.le_trans (hnext w hw) hlevel
  have hright : ∀ u : State, u.words = j →
      Gives (expression d (precedence kind)) u (Given f r) := by
    intro u hu
    have hleads := ihf hkind.2 (fun w hw => Nat.le_succ_of_le (hnext w hw)) d (precedence kind) u
      (.inr (Nat.lt_succ_self _)) hu (by omega)
    exact hleads.stop hnext (Nat.le_of_lt hkind.1) (by rw [hu]; omega)
  rw [extend]
  refine Gives.current_bind ?_
  rw [hk]
  split
  · exact absurd hkind.2 (by decide)
  · exact absurd hkind.2 (by decide)
  · refine Gives.begin_bind (Gives.advance_bind (Gives.bind (hright _ hahead) fun f' u hf => ?_))
    exact Gives.pure ⟨by rw [Node.strip, he, hf.1, hl], hf.2⟩

theorem noItems {closing : Kind} {l : String} :
    Finds (.items closing []) (⟨closing, l⟩ :: r) r := by
  intro _ depth s hahead hdepth
  rw [List.length_cons] at hdepth
  obtain ⟨depth, rfl⟩ : ∃ d, depth = d + 1 := Nat.exists_eq_add_one.mpr (by omega)
  obtain ⟨hk, -, hrest⟩ := State.upcoming_of_ahead hahead
  rw [Parser.items]
  refine Gives.upcoming_bind ?_
  rw [if_pos hk]
  exact Gives.advance_bind (Gives.pure ⟨rfl, hrest⟩)

theorem items {closing : Kind} {es : List Node} (hbegins : Consumes Starts i j)
    (hends : IsClosing closing → Next EndsHere j)
    (ihe : Finds (.expression Precedence.lowest e) i j)
    (ihs : Finds (.moreItems closing es) j r) : Finds (.items closing (e :: es)) i r := by
  intro hclosing depth s hahead hdepth
  obtain ⟨depth, rfl⟩ : ∃ d, depth = d + 1 := Nat.exists_eq_add_one.mpr (by omega)
  have hlong := hbegins.lt
  obtain ⟨w, k, rfl, hw, -⟩ := hbegins
  obtain ⟨hk, -, -⟩ := State.upcoming_of_ahead hahead
  have hne : s.upcoming.kind ≠ closing := by
    rintro rfl
    rw [hk] at hclosing
    rcases hclosing with hc | hc <;> rw [hc] at hw <;> simp [Starts] at hw
  rw [Parser.items]
  refine Gives.upcoming_bind ?_
  rw [if_neg hne]
  refine Gives.advance_bind ?_
  refine Gives.bind (ihe.given (hends hclosing) hahead (by omega)) fun e' t he => ?_
  apply Gives.bind (ihs hclosing depth t he.2 (by omega))
  intro es' u hes
  exact Gives.pure ⟨by rw [Node.stripAll, he.1, hes.1], hes.2⟩

theorem noMoreItems {closing : Kind} {l : String} :
    Finds (.moreItems closing []) (⟨closing, l⟩ :: r) r := by
  intro hclosing depth s hahead hdepth
  obtain ⟨depth, rfl⟩ : ∃ d, depth = d + 1 := Nat.exists_eq_add_one.mpr (by omega)
  obtain ⟨hk, -, hrest⟩ := State.upcoming_of_ahead hahead
  rw [Parser.moreItems]
  refine Gives.upcoming_bind ?_
  rw [if_neg (by rw [hk]; obtain rfl | rfl := hclosing <;> decide)]
  exact Gives.expect_bind hk (Gives.pure ⟨rfl, hrest⟩)

theorem moreItems {closing : Kind} {l : String} {es : List Node} (hlong : j.length < i.length)
    (hends : IsClosing closing → Next EndsHere j)
    (ihe : Finds (.expression Precedence.lowest e) i j)
    (ihs : Finds (.moreItems closing es) j r) :
    Finds (.moreItems closing (e :: es)) (⟨.comma, l⟩ :: i) r := by
  intro hclosing depth s hahead hdepth
  rw [List.length_cons] at hdepth
  obtain ⟨depth, rfl⟩ : ∃ d, depth = d + 1 := Nat.exists_eq_add_one.mpr (by omega)
  obtain ⟨hk, -, hrest⟩ := State.upcoming_of_ahead hahead
  rw [Parser.moreItems]
  refine Gives.upcoming_bind ?_
  rw [if_pos hk]
  refine Gives.advance_bind (Gives.advance_bind ?_)
  refine Gives.bind (ihe.given (hends hclosing) hrest (by omega)) fun e' t he => ?_
  apply Gives.bind (ihs hclosing depth t he.2 (by omega))
  intro es' u hes
  exact Gives.pure ⟨by rw [Node.stripAll, he.1, hes.1], hes.2⟩

theorem noMoreParameters {l : String} : Finds (.moreParameters []) (⟨.rparen, l⟩ :: r) r := by
  intro depth s hahead hdepth
  obtain ⟨depth, rfl⟩ : ∃ d, depth = d + 1 := Nat.exists_eq_add_one.mpr (by omega)
  obtain ⟨hk, -, hrest⟩ := State.upcoming_of_ahead hahead
  rw [Parser.moreParameters]
  refine Gives.upcoming_bind ?_
  rw [if_neg (by rw [hk]; decide)]
  exact Gives.expect_bind hk (Gives.pure ⟨rfl, hrest⟩)

theorem moreParameters {l x : String} {names : List Name} (ih : Finds (.moreParameters names) i r) :
    Finds (.moreParameters (⟨x, none⟩ :: names)) (⟨.comma, l⟩ :: ⟨.ident, x⟩ :: i) r := by
  intro depth s hahead hdepth
  simp only [List.length_cons] at hdepth
  obtain ⟨depth, rfl⟩ : ∃ d, depth = d + 1 := Nat.exists_eq_add_one.mpr (by omega)
  obtain ⟨hk, -, hrest⟩ := State.upcoming_of_ahead hahead
  rw [Parser.moreParameters]
  refine Gives.upcoming_bind ?_
  rw [if_pos hk]
  refine Gives.advance_bind (expect_bind hrest fun hl hrest => Gives.currentName_bind ?_)
  apply Gives.bind (ih depth _ hrest (by omega))
  intro names' t hnames
  refine Gives.pure ⟨?_, hnames.2⟩
  rw [List.map_cons, hnames.1, Name.bare, State.advance_current, hl]

theorem noParameters {l : String} : Finds (.parameters []) (⟨.rparen, l⟩ :: r) r := by
  intro depth s hahead _
  obtain ⟨hk, -, hrest⟩ := State.upcoming_of_ahead hahead
  unfold Parser.parameters
  refine Gives.upcoming_bind ?_
  rw [if_pos hk]
  exact Gives.advance_bind (Gives.pure ⟨rfl, hrest⟩)

theorem parameters {x : String} {names : List Name} (ih : Finds (.moreParameters names) i r) :
    Finds (.parameters (⟨x, none⟩ :: names)) (⟨.ident, x⟩ :: i) r := by
  intro depth s hahead hdepth
  rw [List.length_cons] at hdepth
  unfold Parser.parameters
  refine Gives.upcoming_bind ?_
  obtain ⟨hk, -, -⟩ := State.upcoming_of_ahead hahead
  rw [if_neg (by rw [hk]; decide)]
  refine expect_bind hahead fun hl hrest => Gives.currentName_bind ?_
  apply Gives.bind (ih depth _ hrest (by omega))
  intro names' t hnames
  refine Gives.pure ⟨?_, hnames.2⟩
  rw [List.map_cons, hnames.1, Name.bare, State.advance_current, hl]

theorem noPairs {l : String} : Finds (.pairs []) (⟨.rbrace, l⟩ :: r) r := by
  intro depth s hahead hdepth
  obtain ⟨depth, rfl⟩ : ∃ d, depth = d + 1 := Nat.exists_eq_add_one.mpr (by omega)
  obtain ⟨hk, -, hrest⟩ := State.upcoming_of_ahead hahead
  rw [Parser.pairs]
  refine Gives.upcoming_bind ?_
  rw [if_pos hk]
  exact Gives.advance_bind (Gives.pure ⟨rfl, hrest⟩)

/-- A pair and what follows it, as far as the rule reads it before the remaining pairs. -/
theorem of_pair {k v : Node} {ps : List (Node × Node)} {l : String}
    (hbegins : Consumes Starts i (⟨.colon, l⟩ :: j)) (hlong : m.length < j.length)
    (hends : Next EndsHere m)
    (ihk : Finds (.expression Precedence.lowest k) i (⟨.colon, l⟩ :: j))
    (ihv : Finds (.expression Precedence.lowest v) j m)
    (hrest : ∀ depth t, t.ahead = m → 8 * m.length + 6 ≤ depth →
      Gives (if t.upcoming.kind ≠ .rbrace then expect .comma >>= fun _ => Parser.pairs depth
        else Parser.pairs depth) t fun ps' u => Node.stripPairs ps' = ps ∧ u.ahead = r) :
    Finds (.pairs ((k, v) :: ps)) i r := by
  intro depth s hahead hdepth
  obtain ⟨depth, rfl⟩ : ∃ d, depth = d + 1 := Nat.exists_eq_add_one.mpr (by omega)
  have hlt := hbegins.lt
  rw [List.length_cons] at hlt
  obtain ⟨w, n, rfl, hw, -⟩ := hbegins
  obtain ⟨hk, -, -⟩ := State.upcoming_of_ahead hahead
  rw [Parser.pairs]
  refine Gives.upcoming_bind ?_
  rw [if_neg (by rintro hr; rw [← hk, hr] at hw; simp [Starts] at hw)]
  refine Gives.advance_bind ?_
  refine Gives.bind (ihk.given (next_cons rfl) hahead (by omega)) fun k' t hk' => ?_
  refine expect_bind hk'.2 fun _ hahead => Gives.advance_bind ?_
  refine Gives.bind (ihv.given hends hahead (by omega)) fun v' u hv' => Gives.upcoming_bind ?_
  have hpairs := hrest depth u hv'.2 (by omega)
  by_cases hr : u.upcoming.kind = .rbrace
  · rw [if_neg (by simpa using hr)] at hpairs ⊢
    refine Gives.bind hpairs fun ps' v hps => Gives.pure ⟨?_, hps.2⟩
    rw [Node.stripPairs, hk'.1, hv'.1, hps.1]
  · rw [if_pos hr] at hpairs ⊢
    rw [← bind_assoc]
    refine Gives.bind hpairs fun ps' v hps => Gives.pure ⟨?_, hps.2⟩
    rw [Node.stripPairs, hk'.1, hv'.1, hps.1]

theorem lastPair {k v : Node} {l l' : String}
    (hbegins : Consumes Starts i (⟨.colon, l⟩ :: j)) (hlong : r.length + 1 < j.length)
    (ihk : Finds (.expression Precedence.lowest k) i (⟨.colon, l⟩ :: j))
    (ihv : Finds (.expression Precedence.lowest v) j (⟨.rbrace, l'⟩ :: r)) :
    Finds (.pairs [(k, v)]) i r := by
  refine of_pair (m := ⟨.rbrace, l'⟩ :: r) hbegins hlong (next_cons rfl) ihk ihv ?_
  intro depth t hahead hdepth
  obtain ⟨hk, -, -⟩ := State.upcoming_of_ahead hahead
  rw [if_neg (by simpa using hk)]
  exact noPairs depth t hahead hdepth

theorem pairs {k v : Node} {ps : List (Node × Node)} {l l' : String}
    (hbegins : Consumes Starts i (⟨.colon, l⟩ :: j)) (hlong : m.length + 1 < j.length)
    (ihk : Finds (.expression Precedence.lowest k) i (⟨.colon, l⟩ :: j))
    (ihv : Finds (.expression Precedence.lowest v) j (⟨.comma, l'⟩ :: m))
    (ihs : Finds (.pairs ps) m r) : Finds (.pairs ((k, v) :: ps)) i r := by
  refine of_pair (m := ⟨.comma, l'⟩ :: m) hbegins hlong (next_cons rfl) ihk ihv ?_
  intro depth t hahead hdepth
  obtain ⟨hk, -, hrest⟩ := State.upcoming_of_ahead hahead
  rw [List.length_cons] at hdepth
  rw [if_pos (by rw [hk]; decide)]
  exact Gives.expect_bind hk (ihs depth _ hrest (by omega))

theorem block {l l' : String} {ss : List Node}
    (ih : Finds (.statements ss) i (⟨.rbrace, l'⟩ :: r)) :
    Finds (.block (.block ss none)) (⟨.lbrace, l⟩ :: i) r := by
  intro depth s hwords hdepth
  rw [List.length_cons] at hdepth
  obtain ⟨depth, rfl⟩ : ∃ d, depth = d + 1 := Nat.exists_eq_add_one.mpr (by omega)
  obtain ⟨hk, -, hahead⟩ := State.current_of_words hwords
  refine ⟨hk, ?_⟩
  rw [Parser.block]
  refine Gives.begin_bind (Gives.advance_bind ?_)
  refine Gives.bind (ih true depth _ (.inr ⟨rfl, _, _, rfl⟩) hahead (by omega))
    fun ss' t hss => Gives.pure ⟨?_, ?_⟩
  · rw [Node.strip, hss.1]
  · exact (State.current_of_words hss.2).2.2

theorem unclosedBlock {l : String} {ss : List Node} (ih : Finds (.statements ss) i []) :
    Finds (.block (.block ss none)) (⟨.lbrace, l⟩ :: i) [] := by
  intro depth s hwords hdepth
  rw [List.length_cons] at hdepth
  obtain ⟨depth, rfl⟩ : ∃ d, depth = d + 1 := Nat.exists_eq_add_one.mpr (by omega)
  obtain ⟨hk, -, hahead⟩ := State.current_of_words hwords
  refine ⟨hk, ?_⟩
  rw [Parser.block]
  refine Gives.begin_bind (Gives.advance_bind ?_)
  refine Gives.bind (ih true depth _ (.inl rfl) hahead (by omega)) fun ss' t hss hlast => ?_
  have hend := State.ahead_eq_nil_of_eof hlast (State.current_eof_of_words hss.2)
  exact Gives.pure ⟨by rw [Node.strip, hss.1], hend⟩ hlast

theorem letBinding {l l' x : String} (hlong : j.length ≤ i.length)
    (ih : Finds (.expression Precedence.lowest e) i j) (hend : Terminates j r) :
    Finds (.statement (.letBinding ⟨x, none⟩ e none))
      (⟨.letKeyword, l⟩ :: ⟨.ident, x⟩ :: ⟨.assign, l'⟩ :: i) r := by
  intro depth s hwords hdepth
  simp only [List.length_cons] at hdepth
  obtain ⟨depth, rfl⟩ : ∃ d, depth = d + 1 := Nat.exists_eq_add_one.mpr (by omega)
  rw [Parser.statement]
  apply current_bind hwords
  intro hk hahead
  rw [hk]
  refine Gives.begin_bind (expect_bind hahead fun hl hahead => Gives.currentName_bind ?_)
  refine expect_bind hahead fun _ hahead => Gives.advance_bind ?_
  refine Gives.bind (ih.given hend.endsHere hahead (by omega)) fun e' t he => ?_
  refine Gives.skip_bind (by rwa [he.2]) fun u hu => Gives.pure ⟨?_, hu⟩
  rw [Node.strip, he.1, Name.bare, State.advance_current, hl]

theorem returning {l : String} (ih : Finds (.expression Precedence.lowest e) i j)
    (hend : Terminates j r) :
    Finds (.statement (.returning e none)) (⟨.returnKeyword, l⟩ :: i) r := by
  intro depth s hwords hdepth
  rw [List.length_cons] at hdepth
  obtain ⟨depth, rfl⟩ : ∃ d, depth = d + 1 := Nat.exists_eq_add_one.mpr (by omega)
  rw [Parser.statement]
  apply current_bind hwords
  intro hk hahead
  rw [hk]
  refine Gives.begin_bind (Gives.advance_bind ?_)
  refine Gives.bind (ih.given hend.endsHere hahead (by omega)) fun e' t he => ?_
  exact Gives.skip_bind (by rwa [he.2]) fun u hu => Gives.pure ⟨by rw [Node.strip, he.1], hu⟩

theorem exprStatement (hbegins : Consumes Starts i j)
    (ih : Finds (.expression Precedence.lowest e) i j) (hend : Terminates j r) :
    Finds (.statement (.exprStatement e none)) i r := by
  intro depth s hwords hdepth
  obtain ⟨depth, rfl⟩ : ∃ d, depth = d + 1 := Nat.exists_eq_add_one.mpr (by omega)
  have hstarts : Starts s.current.kind := by
    obtain ⟨w, k, rfl, hw, -⟩ := hbegins
    rwa [(State.current_of_words hwords).1]
  rw [Parser.statement]
  refine Gives.current_bind ?_
  split
  · next hk => rw [hk] at hstarts; simp [Starts] at hstarts
  · next hk => rw [hk] at hstarts; simp [Starts] at hstarts
  · refine Gives.begin_bind ?_
    refine Gives.bind (ih.given hend.endsHere hwords (by omega)) fun e' t he => ?_
    exact Gives.skip_bind (by rwa [he.2]) fun u hu => Gives.pure ⟨by rw [Node.strip, he.1], hu⟩

theorem noStatements : Finds (.statements []) r r := by
  intro inBlock depth s hend hwords hdepth
  obtain ⟨depth, rfl⟩ : ∃ d, depth = d + 1 := Nat.exists_eq_add_one.mpr (by omega)
  rw [Parser.statements]
  refine Gives.current_bind ?_
  rw [if_pos]
  · exact Gives.pure ⟨rfl, hwords⟩
  · rcases hend with rfl | ⟨hblock, l, j, rfl⟩
    · exact .inl (State.current_eof_of_words hwords)
    · exact .inr ⟨hblock, (State.current_of_words hwords).1⟩

theorem statements {n : Node} {ss : List Node} (hbegins : Consumes StartsStatement i j)
    (ihn : Finds (.statement n) i j) (ihs : Finds (.statements ss) j r) :
    Finds (.statements (n :: ss)) i r := by
  intro inBlock depth s hend hwords hdepth
  obtain ⟨depth, rfl⟩ : ∃ d, depth = d + 1 := Nat.exists_eq_add_one.mpr (by omega)
  have hlt := hbegins.lt
  have hstarts : StartsStatement s.current.kind := by
    obtain ⟨w, k, rfl, hw, -⟩ := hbegins
    rwa [(State.current_of_words hwords).1]
  rw [Parser.statements]
  refine Gives.current_bind ?_
  rw [if_neg]
  · apply Gives.bind (Gives.attempt (ihn depth _ hwords (by omega)))
    intro n? t hn
    obtain ⟨n', rfl, hn⟩ := hn
    refine Gives.advance_bind ?_
    apply Gives.bind (ihs inBlock depth t.advance hend hn.2 (by omega))
    intro ss' u hss
    refine Gives.pure ⟨?_, hss.2⟩
    rw [Option.toList_some, List.singleton_append, Node.stripAll, hn.1, hss.1]
  · rintro (hk | ⟨-, hk⟩) <;> rw [hk] at hstarts <;> simp [StartsStatement, Starts] at hstarts

end Finds

/-- Every derivation is found. -/
theorem finds_of_derives {p : Phrase} {i r : List Word} (h : Derives p i r) : Finds p i r := by
  induction h with
  | identifier => exact Finds.identifier
  | integer hread hle => exact Finds.integer hread hle
  | string => exact Finds.string
  | trueLiteral => exact Finds.trueLiteral
  | falseLiteral => exact Finds.falseLiteral
  | grouped h ih => exact Finds.grouped h.begins ih
  | conditional hc ht hnext ihc iht =>
    exact Finds.conditional (Derives.conditional hc ht hnext).begins hc.begins.le ihc iht hnext
  | conditionalElse hc ht ha ihc iht iha =>
    exact Finds.conditionalElse (Derives.conditionalElse hc ht ha).begins hc.begins.le ht.begins
      ihc iht iha
  | function hn hb ihn ihb =>
    exact Finds.function (Derives.function hn hb).begins hn.begins ihn ihb
  | array h ih => exact Finds.array h.begins.le ih
  | hash h ih => exact Finds.hash h.begins.le ih
  | call hf ha ihf iha => exact Finds.call hf.begins ha.begins ihf iha
  | index he hs ihe ihs => exact Finds.index he.begins hs.begins.lt ihe ihs
  | unprefixed _ ih => exact fun _ => ih
  | prefixed hk h ih => exact Finds.prefixed hk h.begins ih
  | operand _ ih => exact Finds.operand ih
  | binary hk hle he hf ihe ihf => exact Finds.binary hk hle he.begins hf.begins.lt ihe ihf
  | noItems => exact Finds.noItems
  | items he hs ihe ihs =>
    exact Finds.items he.begins (fun hc => moreItems_endsHere hc hs) ihe ihs
  | noMoreItems => exact Finds.noMoreItems
  | moreItems he hs ihe ihs =>
    exact Finds.moreItems he.begins.lt (fun hc => moreItems_endsHere hc hs) ihe ihs
  | noParameters => exact Finds.noParameters
  | parameters _ ih => exact Finds.parameters ih
  | noMoreParameters => exact Finds.noMoreParameters
  | moreParameters _ ih => exact Finds.moreParameters ih
  | noPairs => exact Finds.noPairs
  | lastPair hk hv ihk ihv => exact Finds.lastPair hk.begins hv.begins.lt ihk ihv
  | pairs hk hv _ ihk ihv ihs => exact Finds.pairs hk.begins hv.begins.lt ihk ihv ihs
  | block _ ih => exact Finds.block ih
  | unclosedBlock _ ih => exact Finds.unclosedBlock ih
  | letBinding h hend ih => exact Finds.letBinding h.begins.le ih hend
  | returning _ hend ih => exact Finds.returning ih hend
  | exprStatement h hend ih => exact Finds.exprStatement h.begins ih hend
  | noStatements => exact Finds.noStatements
  | statements hs _ ihs ihss => exact Finds.statements hs.begins ihs ihss

/-- The program that the words of a stream derive is the one parsed, without mistakes. -/
theorem run_of_derives {stream : TokenStream} {ss : List Node} (hlast : EofLast stream.tokens)
    (h : Derives (.statements ss) (wordsOf stream.tokens) []) :
    ∃ p, run stream = .ok p ∧ p.errors = [] ∧ Node.stripAll p.statements = ss := by
  have hlength : (wordsOf stream.tokens).length ≤ stream.tokens.length := by
    unfold wordsOf
    rw [List.length_map]
    exact (List.takeWhile_prefix _).length_le
  have hgives := finds_of_derives h false (depthBound stream.tokens.length) (.ofStream stream)
    (.inl rfl) rfl (by unfold depthBound; omega)
  obtain ⟨ss', t, hrun, hreports, -, hss, -⟩ := hgives hlast
  refine ⟨⟨ss', t.log.reverse⟩, run_eq_ok_iff.mpr ⟨t, rfl, hrun⟩, ?_, hss⟩
  rw [errors_eq_nil_iff rfl, hreports]
  rfl

end Monkey.Parser
