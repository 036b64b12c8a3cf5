import Mathlib.Data.List.Forall2
import Mathlib.Data.Option.Basic
import Monkey.Proofs.Parser.Derivation
import Monkey.Proofs.Parser.Forward

/-!
# Laws of the parser

What holds wherever the parser stands is kept by every step that it may take.  A law says what
this is, of two runs side by side: how their states are related, which tokens and trees are, and
that every step keeps it.  A property of one run is a law of the run beside itself.  The rules
are made of these steps, so they obey every law.
-/

namespace Monkey

/-- The places of a tree. -/
inductive Grammar.Place where
  | expression
  | block
  | statement

namespace Parser

open Grammar

/-! ## Trees -/

/-- Names that related tokens spell. -/
inductive Named (token : Token → Token → Prop) : Name → Name → Prop
  | ident {t t' : Token} : t.kind = .ident → token t t' →
      Named token ⟨t.literal, some t⟩ ⟨t'.literal, some t'⟩

/-- The trees that the rules build of related tokens and of trees that are related in their
    places. -/
inductive Built (token : Token → Token → Prop) (node : Place → Node → Node → Prop) :
    Place → Node → Node → Prop
  | identifier {x x' : Name} : Named token x x' →
      Built token node .expression (.identifier x) (.identifier x')
  | integer {n : Int} {t t' : Token} : token t t' → t.kind = .int →
      Numeral.read t.literal = .ok n → n ≤ greatestInteger →
      Built token node .expression (.integer n (some t)) (.integer n (some t'))
  | string {t t' : Token} : token t t' → t.kind = .string →
      Built token node .expression (.string t.literal (some t)) (.string t'.literal (some t'))
  | boolean (b : Bool) {t t' : Token} : token t t' →
      Built token node .expression (.boolean b (some t)) (.boolean b (some t'))
  | array {es es' : List Node} {t t' : Token} : token t t' →
      List.Forall₂ (node .expression) es es' →
      Built token node .expression (.array es (some t)) (.array es' (some t'))
  | hash {ps ps' : List (Node × Node)} {t t' : Token} : token t t' →
      List.Forall₂ (fun p p' => node .expression p.1 p'.1 ∧ node .expression p.2 p'.2) ps ps' →
      Built token node .expression (.hash ps (some t)) (.hash ps' (some t'))
  | function {xs xs' : List Name} {b b' : Node} {t t' : Token} : token t t' →
      List.Forall₂ (Named token) xs xs' → node .block b b' →
      Built token node .expression (.function xs b (some t)) (.function xs' b' (some t'))
  | prefixed {e e' : Node} {t t' : Token} : token t t' → IsPrefix t.kind →
      node .expression e e' → Built token node .expression (.prefixed t.literal e (some t))
        (.prefixed t'.literal e' (some t'))
  | binary {e e' f f' : Node} {t t' : Token} : token t t' → IsBinary t.kind →
      node .expression e e' → node .expression f f' → Built token node .expression
        (.binary e t.literal f (some t)) (.binary e' t'.literal f' (some t'))
  | conditional {c c' d d' : Node} {a a' : Option Node} {t t' : Token} : token t t' →
      node .expression c c' → node .block d d' → Option.Rel (node .block) a a' →
      Built token node .expression (.conditional c d a (some t)) (.conditional c' d' a' (some t'))
  | call {f f' : Node} {as as' : List Node} {t t' : Token} : token t t' →
      node .expression f f' → List.Forall₂ (node .expression) as as' →
      Built token node .expression (.call f as (some t)) (.call f' as' (some t'))
  | index {e e' f f' : Node} {t t' : Token} : token t t' → node .expression e e' →
      node .expression f f' →
      Built token node .expression (.index e f (some t)) (.index e' f' (some t'))
  | block {ss ss' : List Node} {t t' : Token} : token t t' →
      List.Forall₂ (node .statement) ss ss' →
      Built token node .block (.block ss (some t)) (.block ss' (some t'))
  | letBinding {x x' : Name} {e e' : Node} {t t' : Token} : token t t' → Named token x x' →
      node .expression e e' →
      Built token node .statement (.letBinding x e (some t)) (.letBinding x' e' (some t'))
  | returning {e e' : Node} {t t' : Token} : token t t' → node .expression e e' →
      Built token node .statement (.returning e (some t)) (.returning e' (some t'))
  | exprStatement {e e' : Node} {t t' : Token} : token t t' → node .expression e e' →
      Built token node .statement (.exprStatement e (some t)) (.exprStatement e' (some t'))

/-! ## Laws -/

/-- Where the parser may stand. -/
inductive Standing where
  /-- A statement may be taken up at the current token. -/
  | turn
  /-- A rule has not looked at the current token. -/
  | fresh
  /-- A rule has read the current token. -/
  | spent
  /-- The statement has been given up. -/
  | gone

/-- The kinds that a rule may expect. -/
def expectable : List Kind :=
  [.ident, .assign, .comma, .colon, .lparen, .rparen, .lbrace, .rbracket]

/-- A law of two runs: how their states are related where they stand, which tokens are related,
    which trees in which places, and for which integer literals parsing may stop.  Every step
    keeps it.  What it says of the states may be said in view of a world: of the statement that is
    being read, of which nothing is known any more once it has ended. -/
structure Law where
  World : Type
  stand : World → Standing → State → State → Prop
  token : Token → Token → Prop
  node : Place → Node → Node → Prop
  refused : Numeral.Refusal → Prop
  kind_eq : ∀ {t t'}, token t t' → t.kind = t'.kind
  literal_eq : ∀ {t t'}, token t t' → t.kind = .int → t.literal = t'.literal
  built : ∀ {place n n'}, Built token node place n n' → node place n n'
  current : ∀ {w p s s'}, stand w p s s' → token s.current s'.current
  upcoming : ∀ {w p s s'}, stand w p s s' → token s.upcoming s'.upcoming
  read : ∀ {w s s'}, stand w .fresh s s' → s.current.kind ≠ .int → stand w .spent s s'
  advance : ∀ {w s s'}, stand w .spent s s' → stand w .fresh s.advance s'.advance
  began : ∀ {w p s s'} rule, p = .fresh ∨ p = .spent → stand w p s s' →
    stand w p (s.note (.began rule s.current)) (s'.note (.began rule s'.current))
  integer : ∀ {w s s' n}, stand w .fresh s s' → s.current.kind = .int →
    Numeral.read s.current.literal = .ok n → n ≤ greatestInteger → stand w .spent s s'
  outOfRange : ∀ {w s s' n}, stand w .fresh s s' → s.current.kind = .int →
    Numeral.read s.current.literal = .ok n → greatestInteger < n →
    stand w .gone (s.note (.reported ⟨.outOfRange, s.current⟩))
      (s'.note (.reported ⟨.outOfRange, s'.current⟩))
  refuses : ∀ {w s s' refusal}, stand w .fresh s s' → s.current.kind = .int →
    Numeral.read s.current.literal = .error refusal → refused refusal
  noExpression : ∀ {w s s'}, stand w .fresh s s' → s.current.kind ≠ .int →
    stand w .gone (s.note (.reported ⟨.noExpression, s.current⟩))
      (s'.note (.reported ⟨.noExpression, s'.current⟩))
  unexpected : ∀ {w s s' kind}, stand w .spent s s' → kind ∈ expectable →
    s.upcoming.kind ≠ kind → stand w .gone (s.note (.reported ⟨.unexpected kind, s.upcoming⟩))
      (s'.note (.reported ⟨.unexpected kind, s'.upcoming⟩))
  body : ∀ {w s s'}, stand w .spent s s' → stand w .turn s.advance s'.advance
  ended : ∀ {w s s'}, stand w .turn s s' →
    s.current.kind = .eof ∨ s.current.kind = .rbrace → stand w .spent s s'
  attempted : ∀ {w s s'}, stand w .turn s s' → s.current.kind ≠ .eof →
    ∃ v, stand v .fresh (s.note (.attempted s.passed)) (s'.note (.attempted s'.passed)) ∧
      (∀ {t t'}, stand v .spent t t' → stand w .turn t.advance t'.advance) ∧
      ∀ {t t'}, stand v .gone t t' → stand w .turn (t.note (.dropped s.passed)).advance
        (t'.note (.dropped s'.passed)).advance

namespace Law

variable (L : Law) {α β γ δ : Type}

/-- Two runs have ended alike: with results that are related, with a statement that is given up
    if one may be, or both at an integer literal that stops them. -/
inductive Ends (w : L.World) (drops : Prop) (post : α → β → Prop) :
    EStateM.Result Failure State α → EStateM.Result Failure State β → Prop
  | ok {a : α} {b : β} {t t' : State} : L.stand w .spent t t' → post a b →
      Ends w drops post (.ok a t) (.ok b t')
  | dropped {t t' : State} : drops → L.stand w .gone t t' →
      Ends w drops post (.error .dropped t) (.error .dropped t')
  | refused {refusal : Numeral.Refusal} (t t' : State) : L.refused refusal →
      Ends w drops post (.error (.unreadable refusal) t) (.error (.unreadable refusal) t')

/-- Two actions end alike at two states. -/
def Goes (w : L.World) (drops : Prop) (post : α → β → Prop) (x : Action α) (y : Action β)
    (s s' : State) : Prop :=
  L.Ends w drops post (x s) (y s')

variable {L} {w : L.World} {drops : Prop} {post : α → β → Prop} {post' : γ → δ → Prop}
  {s s' : State}

/-- A rule that passes a token has read it. -/
theorem passes (h : L.stand w .spent s s') (hkind : s.upcoming.kind ≠ .int) :
    L.stand w .spent s.advance s'.advance :=
  L.read (L.advance h) hkind

theorem ne_int_of_mem_expectable {kind : Kind} (h : kind ∈ expectable) : kind ≠ .int := by
  rintro rfl
  exact absurd h (by decide)

namespace Goes

protected theorem pure {a : α} {b : β} (h : L.stand w .spent s s') (hab : post a b) :
    L.Goes w drops post (pure a) (pure b) s s' := Ends.ok h hab

theorem mono {x : Action α} {y : Action β} {drops' : Prop} (hx : L.Goes w drops post x y s s')
    (h : drops → drops') : L.Goes w drops' post x y s s' := by
  unfold Goes at hx ⊢
  generalize x s = r, y s' = r' at hx
  cases hx with
  | ok hs hab => exact .ok hs hab
  | dropped hdrops hs => exact .dropped (h hdrops) hs
  | refused t t' hrefused => exact .refused t t' hrefused

theorem bind {x : Action α} {y : Action β} {f : α → Action γ} {g : β → Action δ}
    [hforward : Forward x] [hforward' : Forward y] (hx : L.Goes w drops post x y s s')
    (hf : ∀ a b t t', L.stand w .spent t t' → t.rest.length ≤ s.rest.length →
      t'.rest.length ≤ s'.rest.length → post a b → L.Goes w drops post' (f a) (g b) t t') :
    L.Goes w drops post' (x >>= f) (y >>= g) s s' := by
  unfold Goes at hx ⊢
  rw [bind_run, bind_run]
  have honward {a : α} {t : State} (h : x s = .ok a t) := (hforward.onward h).length_le
  have honward' {b : β} {t' : State} (h : y s' = .ok b t') := (hforward'.onward h).length_le
  generalize x s = r, y s' = r' at hx honward honward'
  cases hx with
  | ok hs hab => exact hf _ _ _ _ hs (honward rfl) (honward' rfl) hab
  | dropped hdrops hs => exact .dropped hdrops hs
  | refused t t' h => exact .refused t t' h

theorem ite {c d : Prop} [Decidable c] [Decidable d] {x x' : Action α} {y y' : Action β}
    (hcd : c ↔ d) (hx : c → L.Goes w drops post x y s s')
    (hx' : ¬ c → L.Goes w drops post x' y' s s') :
    L.Goes w drops post (if c then x else x') (if d then y else y') s s' := by
  by_cases h : c
  · rw [if_pos h, if_pos (hcd.mp h)]
    exact hx h
  · rw [if_neg h, if_neg (mt hcd.mpr h)]
    exact hx' h

theorem current_bind {f : Token → Action α} {g : Token → Action β}
    (h : L.Goes w drops post (f s.current) (g s'.current) s s') :
    L.Goes w drops post (Parser.current >>= f) (Parser.current >>= g) s s' := h

theorem currentName_bind {f : Name → Action α} {g : Name → Action β}
    (h : L.Goes w drops post (f ⟨s.current.literal, some s.current⟩)
      (g ⟨s'.current.literal, some s'.current⟩) s s') :
    L.Goes w drops post (currentName >>= f) (currentName >>= g) s s' := h

theorem upcoming_bind {f : Token → Action α} {g : Token → Action β}
    (h : L.Goes w drops post (f s.upcoming) (g s'.upcoming) s s') :
    L.Goes w drops post (Parser.upcoming >>= f) (Parser.upcoming >>= g) s s' := h

theorem begin_bind {rule : Rule} {f : Token → Action α} {g : Token → Action β}
    (h : L.Goes w drops post (f s.current) (g s'.current) (s.note (.began rule s.current))
      (s'.note (.began rule s'.current))) :
    L.Goes w drops post (begin rule >>= f) (begin rule >>= g) s s' := h

theorem advance_bind {f : Unit → Action α} {g : Unit → Action β}
    (h : L.Goes w drops post (f ()) (g ()) s.advance s'.advance) :
    L.Goes w drops post (Parser.advance >>= f) (Parser.advance >>= g) s s' := h

/-- The next token is read if it is of the kind that is expected, on both sides, and else both
    statements are given up. -/
theorem expect_bind (h : L.stand w .spent s s') {kind : Kind} {f : Unit → Action α}
    {g : Unit → Action β}
    (hf : s.upcoming.kind = kind → L.stand w .spent s.advance s'.advance →
      L.Goes w True post (f ()) (g ()) s.advance s'.advance)
    (hkind : kind ∈ expectable := by decide) :
    L.Goes w True post (expect kind >>= f) (expect kind >>= g) s s' := by
  have hrun := expect_run kind s
  have hrun' := expect_run kind s'
  unfold Goes
  rw [← L.kind_eq (L.upcoming h)] at hrun'
  by_cases hk : s.upcoming.kind = kind
  · rw [if_pos hk] at hrun hrun'
    rw [bind_run_ok hrun, bind_run_ok hrun']
    exact hf hk (passes h (hk ▸ ne_int_of_mem_expectable hkind))
  · rw [if_neg hk] at hrun hrun'
    rw [bind_run_error hrun, bind_run_error hrun']
    exact Ends.dropped trivial (L.unexpected h hkind hk)

/-- A semicolon is passed on both sides or on neither. -/
theorem skip (h : L.stand w .spent s s') : L.Goes w drops (fun _ _ => True)
    (Parser.skip .semicolon) (Parser.skip .semicolon) s s' := by
  have hkind : s.upcoming.kind = .semicolon ↔ s'.upcoming.kind = .semicolon := by
    rw [L.kind_eq (L.upcoming h)]
  refine .upcoming_bind (.ite hkind (fun hk => ?_) fun _ => ?_)
  · exact Ends.ok (passes h (by rw [hk]; decide)) trivial
  · exact Ends.ok h trivial

/-- The integer literal at which a rule stands. -/
theorem integerLiteral (h : L.stand w .fresh s s') (hk : s.current.kind = .int) :
    L.Goes w True (L.node .expression) (integerLiteral s.current) (integerLiteral s'.current)
      s s' := by
  unfold Parser.integerLiteral
  rw [← L.literal_eq (L.current h) hk]
  cases hread : Numeral.read s.current.literal with
  | error refusal => exact Ends.refused _ _ (L.refuses h hk hread)
  | ok n =>
    refine .ite .rfl (fun hgreat => ?_) fun hle => ?_
    · exact Ends.dropped trivial (L.outOfRange h hk hread hgreat)
    have hn := Int.not_lt.mp hle
    exact .pure (L.integer h hk hread hn) (L.built (.integer (L.current h) hk hread hn))

/-- An attempt and the step behind it lead to where the next statement may be taken up. -/
theorem attempt_bind {x y : Action Node} [hforward : Forward x] [hforward' : Forward y]
    {f : Option Node → Action α} {g : Option Node → Action β} (h : L.stand w .turn s s')
    (hne : s.current.kind ≠ .eof)
    (hx : ∀ v, L.stand v .fresh (s.note (.attempted s.passed)) (s'.note (.attempted s'.passed)) →
      L.Goes v True (L.node .statement) x y (s.note (.attempted s.passed))
        (s'.note (.attempted s'.passed)))
    (hf : ∀ n? n?' t t', L.stand w .turn t t' → t.rest.length ≤ s.rest.length - 1 →
      t'.rest.length ≤ s'.rest.length - 1 →
      List.Forall₂ (L.node .statement) n?.toList n?'.toList →
      L.Goes w drops post (f n?) (g n?') t t') :
    L.Goes w drops post (attempt x >>= fun n? => Parser.advance >>= fun _ => f n?)
      (attempt y >>= fun n? => Parser.advance >>= fun _ => g n?) s s' := by
  obtain ⟨v, hfresh, hkept, hgone⟩ := L.attempted h hne
  have hrun := hx v hfresh
  have hlen {t : State} (h : (s.note (.attempted s.passed)).Onward t) :
      t.advance.rest.length ≤ s.rest.length - 1 := by
    have hle := h.length_le
    rw [State.note_rest] at hle
    rw [State.advance_rest, List.length_tail]
    omega
  have hlen' {t : State} (h : (s'.note (.attempted s'.passed)).Onward t) :
      t.advance.rest.length ≤ s'.rest.length - 1 := by
    have hle := h.length_le
    rw [State.note_rest] at hle
    rw [State.advance_rest, List.length_tail]
    omega
  unfold Goes at hrun ⊢
  rw [bind_run, bind_run]
  unfold attempt
  cases hr : x (s.note (.attempted s.passed)) with
  | ok n t =>
    cases hr' : y (s'.note (.attempted s'.passed)) with
    | ok n' t' =>
      rw [hr, hr'] at hrun
      cases hrun with
      | ok hs hn =>
        exact hf _ _ _ _ (hkept hs) (hlen (hforward.onward hr)) (hlen' (hforward'.onward hr'))
          (.cons hn .nil)
    | error e t' => rw [hr, hr'] at hrun; cases hrun
  | error e t =>
    cases hr' : y (s'.note (.attempted s'.passed)) with
    | ok n' t' => rw [hr, hr'] at hrun; cases hrun
    | error e' t' =>
      rw [hr, hr'] at hrun
      cases hrun with
      | dropped _ hs =>
        have ht := hlen (hforward.onward_of_error hr)
        have ht' := hlen' (hforward'.onward_of_error hr')
        exact hf _ _ _ _ (hgone hs) ht ht' .nil
      | refused _ _ hrefused => exact .refused _ _ hrefused

end Goes

end Law

end Parser

end Monkey
