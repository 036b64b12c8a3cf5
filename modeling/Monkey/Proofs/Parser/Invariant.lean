import Monkey.Proofs.Parser.Lawful

/-!
# Invariants of the parser

What one run keeps wherever the parser stands is a law of the run beside itself.  So it holds at
the end of every parse, whatever the tokens are, and a parse comes to its end at every depth that
covers them.
-/

namespace Monkey.Parser

/-- What holds of a state by where the parser stands, and of the integer literals at which parsing
    stops.  Every step keeps it. -/
structure Invariant where
  World : Type
  stand : World → Standing → State → Prop
  refused : Numeral.Refusal → Prop := fun _ => True
  read : ∀ {w s}, stand w .fresh s → s.current.kind ≠ .int → stand w .spent s
  advance : ∀ {w s}, stand w .spent s → stand w .fresh s.advance
  began : ∀ {w p s} rule, p = .fresh ∨ p = .spent → stand w p s →
    stand w p (s.note (.began rule s.current))
  integer : ∀ {w s n}, stand w .fresh s → s.current.kind = .int →
    Numeral.read s.current.literal = .ok n → n ≤ greatestInteger → stand w .spent s
  outOfRange : ∀ {w s n}, stand w .fresh s → s.current.kind = .int →
    Numeral.read s.current.literal = .ok n → greatestInteger < n →
    stand w .gone (s.note (.reported ⟨.outOfRange, s.current⟩))
  refuses : ∀ {w s refusal}, stand w .fresh s → s.current.kind = .int →
    Numeral.read s.current.literal = .error refusal → refused refusal := by
      exact fun _ _ _ => trivial
  noExpression : ∀ {w s}, stand w .fresh s → s.current.kind ≠ .int →
    stand w .gone (s.note (.reported ⟨.noExpression, s.current⟩))
  unexpected : ∀ {w s kind}, stand w .spent s → kind ∈ expectable → s.upcoming.kind ≠ kind →
    stand w .gone (s.note (.reported ⟨.unexpected kind, s.upcoming⟩))
  body : ∀ {w s}, stand w .spent s → stand w .turn s.advance
  ended : ∀ {w s}, stand w .turn s → s.current.kind = .eof ∨ s.current.kind = .rbrace →
    stand w .spent s
  attempted : ∀ {w s}, stand w .turn s → s.current.kind ≠ .eof →
    ∃ v, stand v .fresh (s.note (.attempted s.passed)) ∧
      (∀ {t}, stand v .spent t → stand w .turn t.advance) ∧
      ∀ {t}, stand v .gone t → stand w .turn (t.note (.dropped s.passed)).advance

/-- No tree is built in two ways. -/
theorem Built.eq {place : Grammar.Place} {n n' : Node} (h : Built Eq (fun _ => Eq) place n n') :
    n = n' := by
  have hname {x x' : Name} (hx : Named Eq x x') : x = x' := by
    cases hx with
    | ident _ ht => rw [ht]
  have hlist {xs ys : List Node} (h : List.Forall₂ Eq xs ys) : xs = ys :=
    List.forall₂_eq_eq_eq ▸ h
  cases h with
  | identifier hx => rw [hname hx]
  | integer ht | string ht | boolean _ ht => rw [ht]
  | array ht hes => rw [ht, hlist hes]
  | hash ht hps =>
    have hpairs : (fun p p' : Node × Node => p.1 = p'.1 ∧ p.2 = p'.2) = Eq := by
      funext p p'
      exact propext Prod.ext_iff.symm
    rw [hpairs, List.forall₂_eq_eq_eq] at hps
    rw [ht, hps]
  | function ht hxs hb =>
    have hnames := hxs.imp fun _ _ => hname
    rw [List.forall₂_eq_eq_eq] at hnames
    rw [ht, hnames, hb]
  | prefixed ht _ he | exprStatement ht he | returning ht he => rw [ht, he]
  | binary ht _ he hf | index ht he hf => rw [ht, he, hf]
  | conditional ht hc hd ha =>
    rw [ht, hc, hd]
    cases ha with
    | none => rfl
    | some ha => rw [ha]
  | call ht hf has => rw [ht, hf, hlist has]
  | block ht hss => rw [ht, hlist hss]
  | letBinding ht hx he => rw [ht, hname hx, he]

namespace Invariant

/-- The law of a run beside itself. -/
def law (I : Invariant) : Law where
  World := I.World
  stand w p s s' := s = s' ∧ I.stand w p s
  token := Eq
  node _ := Eq
  refused := I.refused
  kind_eq h := h ▸ rfl
  literal_eq h _ := h ▸ rfl
  built := Built.eq
  current h := h.1 ▸ rfl
  upcoming h := h.1 ▸ rfl
  read := by rintro _ _ _ ⟨rfl, h⟩ hk; exact ⟨rfl, I.read h hk⟩
  advance := by rintro _ _ _ ⟨rfl, h⟩; exact ⟨rfl, I.advance h⟩
  began := by rintro _ _ _ _ rule hp ⟨rfl, h⟩; exact ⟨rfl, I.began rule hp h⟩
  integer := by rintro _ _ _ _ ⟨rfl, h⟩ hk hn hle; exact ⟨rfl, I.integer h hk hn hle⟩
  outOfRange := by rintro _ _ _ _ ⟨rfl, h⟩ hk hn hlt; exact ⟨rfl, I.outOfRange h hk hn hlt⟩
  refuses := by rintro _ _ _ _ ⟨rfl, h⟩; exact I.refuses h
  noExpression := by rintro _ _ _ ⟨rfl, h⟩ hk; exact ⟨rfl, I.noExpression h hk⟩
  unexpected := by rintro _ _ _ _ ⟨rfl, h⟩ hmem hk; exact ⟨rfl, I.unexpected h hmem hk⟩
  body := by rintro _ _ _ ⟨rfl, h⟩; exact ⟨rfl, I.body h⟩
  ended := by rintro _ _ _ ⟨rfl, h⟩ hk; exact ⟨rfl, I.ended h hk⟩
  attempted := by
    rintro _ _ _ ⟨rfl, h⟩ hk
    obtain ⟨v, hfresh, hkept, hgone⟩ := I.attempted h hk
    refine ⟨v, ⟨rfl, hfresh⟩, ?_, ?_⟩
    · rintro _ _ ⟨rfl, ht⟩
      exact ⟨rfl, hkept ht⟩
    · rintro _ _ ⟨rfl, ht⟩
      exact ⟨rfl, hgone ht⟩

variable (I : Invariant) {w : I.World} {s : State} {depth depth' : Nat}

/-- How an attempt at a statement ends at a depth that covers the tokens left. -/
theorem statement_ends (h : I.stand w .fresh s) (hd : 8 * s.rest.length + 6 ≤ depth) :
    (∃ n t, statement depth s = .ok n t ∧ I.stand w .spent t) ∨
      (∃ t, statement depth s = .error .dropped t ∧ I.stand w .gone t) ∨
      ∃ refusal t, statement depth s = .error (.unreadable refusal) t ∧ I.refused refusal := by
  have hgoes := (rulesObey I.law depth depth).statement ⟨rfl, h⟩ ⟨hd, hd⟩
  unfold Law.Goes at hgoes
  cases hrun : statement depth s with
  | ok n t =>
    rw [hrun] at hgoes
    cases hgoes with
    | ok hs => exact .inl ⟨n, t, rfl, hs.2⟩
  | error e t =>
    rw [hrun] at hgoes
    cases hgoes with
    | dropped _ hs => exact .inr (.inl ⟨t, rfl, hs.2⟩)
    | refused _ _ hrefused => exact .inr (.inr ⟨_, t, rfl, hrefused⟩)

/-- How statements end at depths that cover the tokens left: alike at all of them. -/
theorem statements_ends (inBlock : Bool) (h : I.stand w .turn s)
    (hd : 8 * s.rest.length + 7 ≤ depth) (hd' : 8 * s.rest.length + 7 ≤ depth') :
    (∃ ss t, statements inBlock depth s = .ok ss t ∧ statements inBlock depth' s = .ok ss t ∧
        I.stand w .spent t) ∨
      ∃ refusal t t', statements inBlock depth s = .error (.unreadable refusal) t ∧
        statements inBlock depth' s = .error (.unreadable refusal) t' ∧ I.refused refusal := by
  rcases I.law.statements_ends inBlock ⟨rfl, h⟩ ⟨hd, hd'⟩ with
    ⟨ss, ss', t, t', hrun, hrun', ⟨rfl, ht⟩, hss⟩ | hrefused
  · have hss : ss = ss' := List.forall₂_eq_eq_eq ▸ hss
    exact .inl ⟨ss, t, hrun, hss ▸ hrun', ht⟩
  · exact .inr hrefused

/-! ## Whole parses -/

/-- A parse ends where the loop over its statements ends, or at an integer literal. -/
theorem run_ends {stream : TokenStream} (h : I.stand w .turn (.ofStream stream)) :
    (∃ ss t, run stream = .ok ⟨ss, t.log.reverse⟩ ∧ I.stand w .spent t ∧
        ∀ depth, depthBound stream.tokens.length ≤ depth →
          statements false depth (.ofStream stream) = .ok ss t) ∨
      ∃ refusal, run stream = .error refusal ∧ I.refused refusal := by
  have hends {depth : Nat} (hd : depthBound stream.tokens.length ≤ depth) :=
    I.statements_ends false h (covers_depthBound le_rfl) (covers_depthBound hd)
  unfold run
  rcases hends le_rfl with ⟨ss, t, hrun, -, ht⟩ | ⟨refusal, t, -, hrun, -, hrefused⟩
  · refine .inl ⟨ss, t, by rw [hrun], ht, fun depth hd => ?_⟩
    rcases hends hd with ⟨ss', t', hrun', hdeep, -⟩ | ⟨_, _, _, hrun', -⟩
    · obtain ⟨rfl, rfl⟩ := EStateM.Result.ok.inj (hrun.symm.trans hrun')
      exact hdeep
    · cases hrun.symm.trans hrun'
  · exact .inr ⟨refusal, by rw [hrun], hrefused⟩

/-- What has been kept at the end of a parse. -/
theorem exists_of_run {stream : TokenStream} (h : I.stand w .turn (.ofStream stream)) {p : Parse}
    (hrun : run stream = .ok p) : ∃ t, p.events = t.log.reverse ∧ I.stand w .spent t := by
  rcases I.run_ends h with ⟨ss, t, hrun', ht, -⟩ | ⟨refusal, hrun', -⟩
  · cases hrun.symm.trans hrun'
    exact ⟨t, rfl, ht⟩
  · cases hrun.symm.trans hrun'

end Invariant

end Monkey.Parser
