import Monkey.Proofs.Node.Alike
import Monkey.Proofs.Parser.Accounts
import Monkey.Proofs.Token.Scan

/-!
# Where tokens stand does not matter

The parser looks at the kinds and the literals of tokens.  From tokens that differ in their
positions only it reads the same trees and reports the same mistakes, however many ends of the
input stand behind them, and whether they are drawn from a source text or listed.
-/

namespace Monkey

/-! ## Tokens -/

/-- Two tokens are the same to the parser: they are of one kind, and they have one literal unless
    they are ends of the input. -/
structure Token.ReadsAs (t u : Token) : Prop where
  kind : t.kind = u.kind
  literal : t.kind ≠ .eof → t.literal = u.literal

/-- Tokens that differ pairwise at most in their positions, and behind them on either side any
    number of ends of the input. -/
inductive SpellAlike : List Token → List Token → Prop
  | ends {ts us : List Token} : (∀ t ∈ ts, t.kind = .eof) → (∀ u ∈ us, u.kind = .eof) →
      SpellAlike ts us
  | token {t u : Token} {ts us : List Token} : t.SameText u → SpellAlike ts us →
      SpellAlike (t :: ts) (u :: us)

namespace SpellAlike

variable {ts us : List Token}

theorem tail (h : SpellAlike ts us) : SpellAlike ts.tail us.tail := by
  cases h with
  | ends hts hus =>
    exact .ends (fun t ht => hts t (List.mem_of_mem_tail ht))
      fun u hu => hus u (List.mem_of_mem_tail hu)
  | token _ h => exact h

theorem headD_kind (h : ∀ t ∈ ts, t.kind = .eof) {last : Token} (hlast : last.kind = .eof) :
    (ts.headD last).kind = .eof := by
  cases ts with
  | nil => exact hlast
  | cons t ts => exact h t (List.mem_cons_self ..)

theorem headD (h : SpellAlike ts us) {last last' : Token} (hlast : last.kind = .eof)
    (hlast' : last'.kind = .eof) : (ts.headD last).ReadsAs (us.headD last') := by
  cases h with
  | ends hts hus =>
    have hkind := headD_kind hts hlast
    exact ⟨hkind.trans (headD_kind hus hlast').symm, fun hne => absurd hkind hne⟩
  | token htext _ => exact ⟨htext.1, fun _ => htext.2⟩

theorem append_left (front : List Token) (h : SpellAlike ts us) :
    SpellAlike (front ++ ts) (front ++ us) := by
  induction front with
  | nil => exact h
  | cons t front ih => exact .token ⟨rfl, rfl⟩ ih

protected theorem refl (ts : List Token) : SpellAlike ts ts := by
  induction ts with
  | nil => exact .ends (List.forall_mem_nil _) (List.forall_mem_nil _)
  | cons t ts ih => exact .token ⟨rfl, rfl⟩ ih

end SpellAlike

namespace Parser

/-! ## States -/

/-- Two states are the same to the parser: so are the tokens left, and the same mistakes have been
    reported. -/
structure State.Alike (s s' : State) : Prop where
  rest : SpellAlike s.rest s'.rest
  messages : s.reports.map Diagnostic.message = s'.reports.map Diagnostic.message

namespace State.Alike

variable {s s' : State}

theorem current (h : s.Alike s') : s.current.ReadsAs s'.current := h.rest.headD rfl rfl

theorem upcoming (h : s.Alike s') : s.upcoming.ReadsAs s'.upcoming := h.rest.tail.headD rfl rfl

theorem advance (h : s.Alike s') : s.advance.Alike s'.advance := ⟨h.rest.tail, h.messages⟩

/-- What is noted does not count unless it is a mistake. -/
theorem note (h : s.Alike s') {e e' : Event} (he : e.diagnostic? = none)
    (he' : e'.diagnostic? = none) : (s.note e).Alike (s'.note e') := by
  refine ⟨h.rest, ?_⟩
  unfold State.reports
  rw [State.note_log, State.note_log, List.filterMap_cons, List.filterMap_cons, he, he']
  exact h.messages

theorem began (h : s.Alike s') (rule : Rule) :
    (s.note (.began rule s.current)).Alike (s'.note (.began rule s'.current)) :=
  h.note rfl rfl

/-- Mistakes that are worded alike are the same. -/
theorem reported (h : s.Alike s') {d d' : Diagnostic} (hmessage : d.message = d'.message) :
    (s.note (.reported d)).Alike (s'.note (.reported d')) := by
  refine ⟨h.rest, ?_⟩
  rw [State.reports_note_reported, State.reports_note_reported, List.map_cons, List.map_cons,
    hmessage, h.messages]

end State.Alike

/-! ## Trees -/

theorem bare_of_named {x x' : Name} (h : Named Token.ReadsAs x x') : x.bare = x'.bare := by
  cases h with
  | ident hident ht => exact congrArg (Name.mk · none) (ht.literal (by rw [hident]; decide))

theorem map_bare_of_named {xs xs' : List Name} (h : List.Forall₂ (Named Token.ReadsAs) xs xs') :
    xs.map Name.bare = xs'.map Name.bare := by
  induction h with
  | nil => rfl
  | cons hx _ ih => rw [List.map_cons, List.map_cons, bare_of_named hx, ih]

theorem stripAll_of_forall₂ {ns ns' : List Node}
    (h : List.Forall₂ (fun n n' => n.strip = n'.strip) ns ns') :
    Node.stripAll ns = Node.stripAll ns' := by
  induction h with
  | nil => rfl
  | cons hn _ ih => rw [Node.stripAll, Node.stripAll, hn, ih]

theorem stripPairs_of_forall₂ {ps ps' : List (Node × Node)}
    (h : List.Forall₂ (fun p p' => p.1.strip = p'.1.strip ∧ p.2.strip = p'.2.strip) ps ps') :
    Node.stripPairs ps = Node.stripPairs ps' := by
  induction h with
  | nil => rfl
  | cons hp _ ih => rw [Node.stripPairs, Node.stripPairs, hp.1, hp.2, ih]

/-- Trees that are built of tokens that are the same, and of trees that are alike, are alike. -/
theorem strip_of_built {place : Grammar.Place} {n n' : Node}
    (h : Built Token.ReadsAs (fun _ n n' => n.strip = n'.strip) place n n') :
    n.strip = n'.strip := by
  cases h with
  | identifier hx => rw [Node.strip, Node.strip, bare_of_named hx]
  | integer | boolean => rfl
  | string ht hstring =>
    rw [Node.strip, Node.strip, ht.literal (by rw [hstring]; decide)]
  | array _ hes => rw [Node.strip, Node.strip, stripAll_of_forall₂ hes]
  | hash _ hps => rw [Node.strip, Node.strip, stripPairs_of_forall₂ hps]
  | function _ hxs hb => rw [Node.strip, Node.strip, map_bare_of_named hxs, hb]
  | prefixed ht hoperator he => rw [Node.strip, Node.strip, ht.literal hoperator.ne_eof, he]
  | binary ht hbinary he hf => rw [Node.strip, Node.strip, ht.literal hbinary.ne_eof, he, hf]
  | conditional _ hc hd ha =>
    rw [Node.strip, Node.strip, hc, hd]
    cases ha with
    | none => rfl
    | some ha => rw [Node.stripOption, Node.stripOption, ha]
  | call _ hf has => rw [Node.strip, Node.strip, hf, stripAll_of_forall₂ has]
  | index _ he hf => rw [Node.strip, Node.strip, he, hf]
  | block _ hss => rw [Node.strip, Node.strip, stripAll_of_forall₂ hss]
  | letBinding _ hx he => rw [Node.strip, Node.strip, bare_of_named hx, he]
  | returning _ he | exprStatement _ he => rw [Node.strip, Node.strip, he]

/-! ## Every step does the same -/

/-- The law of two parses of tokens that are the same. -/
def Law.alike : Law where
  World := Unit
  stand _ _ := State.Alike
  token := Token.ReadsAs
  node _ n n' := n.strip = n'.strip
  refused _ := True
  kind_eq := Token.ReadsAs.kind
  literal_eq h hk := h.literal (by rw [hk]; decide)
  built := strip_of_built
  current h := h.current
  upcoming h := h.upcoming
  read h _ := h
  advance h := h.advance
  began rule _ h := h.began rule
  integer h _ _ _ := h
  outOfRange h hk _ _ := h.reported (by
    simp only [Diagnostic.message, h.current.literal (by rw [hk]; decide)])
  refuses _ _ _ := trivial
  noExpression h _ := h.reported (by simp only [Diagnostic.message, h.current.kind])
  unexpected h _ _ := h.reported (by simp only [Diagnostic.message, h.upcoming.kind])
  body h := h.advance
  ended h _ := h
  attempted h _ := ⟨(), h.note rfl rfl, fun ht => ht.advance, fun ht => (ht.note rfl rfl).advance⟩

end Parser

/-! ## Programs -/

/-- Two outcomes of parsing are the same: one and the same refusal, or alike programs with the
    same messages in the same order. -/
inductive Parse.Agrees : Except Numeral.Refusal Parse → Except Numeral.Refusal Parse → Prop
  | refused (refusal : Numeral.Refusal) : Agrees (.error refusal) (.error refusal)
  | read {p q : Parse} : p.program.alike q.program = true → p.errors = q.errors →
      Agrees (.ok p) (.ok q)

namespace Parser

theorem errors_eq {p : Parse} {t : State} (h : p.events = t.log.reverse) :
    p.errors = (t.reports.map Diagnostic.message).reverse := by
  unfold Parse.errors
  rw [diagnostics_eq h, List.map_reverse]

theorem run_agrees_of_spellAlike {stream stream' : TokenStream}
    (h : SpellAlike stream.tokens stream'.tokens) :
    Parse.Agrees (run stream) (run stream') := by
  have hstart : (State.ofStream stream).Alike (.ofStream stream') := ⟨h, rfl⟩
  rcases Law.alike.run_ends (w := ()) hstart with
    ⟨ss, ss', t, t', hrun, hrun', ht, hss⟩ | ⟨refusal, hrun, hrun', -⟩
  · rw [hrun, hrun']
    refine .read ?_ ?_
    · rw [Node.alike_iff, Parse.program, Parse.program, Node.strip, Node.strip,
        stripAll_of_forall₂ hss]
    · rw [errors_eq rfl, errors_eq rfl, ht.messages]
  · rw [hrun, hrun']
    exact .refused refusal

/-- Where tokens stand does not matter to the parser, nor do ends of the input behind them, nor
    the place where it takes the input to end: it gives alike programs and the same messages.  So
    a source text is parsed like the list of its tokens, with the end of the input in it or
    without. -/
theorem run_spellAlike :
    (∀ stream stream' : TokenStream, SpellAlike stream.tokens stream'.tokens →
      Parse.Agrees (run stream) (run stream')) ∧
    ∀ source : String, Parse.Agrees (parse source) (parseTokens (scan source)) ∧
      Parse.Agrees (parse source) (parseTokens (scan source).dropLast) := by
  refine ⟨fun _ _ h => run_agrees_of_spellAlike h, fun source => ?_⟩
  obtain ⟨tokens, hscan, -⟩ := scan_eq source
  have heof : ∀ t ∈ [endOfSource source], t.kind = .eof := by
    intro t ht
    rw [List.mem_singleton.mp ht]
    rfl
  constructor <;> refine run_agrees_of_spellAlike ?_
  · exact .refl (scan source)
  · have hends := (SpellAlike.ends heof (List.forall_mem_nil _)).append_left tokens
    rw [List.append_nil] at hends
    simp only [TokenStream.ofSource, TokenStream.ofTokens, hscan, List.dropLast_concat]
    exact hends

/-- The block is closed by the end of the input, which stands twice behind the tokens on one side
    and not at all on the other.  Both sides miss the name and the last operand. -/
theorem run_spellAlike_unclosed :
    let tokens : List Token := [⟨.ifKeyword, "if", 1, 1⟩, ⟨.lparen, "(", 1, 4⟩,
      ⟨.trueKeyword, "true", 1, 5⟩, ⟨.rparen, ")", 1, 9⟩, ⟨.lbrace, "\x7b", 1, 11⟩,
      ⟨.letKeyword, "let", 2, 3⟩, ⟨.int, "1", 2, 7⟩, ⟨.minus, "-", 2, 9⟩, ⟨.eof, "", 3, 1⟩,
      ⟨.eof, "", 3, 1⟩]
    let moved : List Token := [⟨.ifKeyword, "if", 0, 0⟩, ⟨.lparen, "(", -7, 0⟩,
      ⟨.trueKeyword, "true", 0, 0⟩, ⟨.rparen, ")", 5, 5⟩, ⟨.lbrace, "\x7b", 5, 5⟩,
      ⟨.letKeyword, "let", 5, 5⟩, ⟨.int, "1", 0, 0⟩, ⟨.minus, "-", 0, 0⟩]
    SpellAlike tokens moved ∧
      (run ⟨tokens, 3, 1⟩).map Parse.errors =
        .ok ["expected next token to be IDENT, got INT instead",
          "no prefix parse function for EOF found"] ∧
      (run ⟨tokens, 3, 1⟩).map (·.statements.length) = .ok 1 ∧
      Parse.Agrees (run ⟨tokens, 3, 1⟩) (run ⟨moved, 0, 0⟩) := by
  intro tokens moved
  have halike : SpellAlike tokens moved := by
    repeat' refine .token ⟨rfl, rfl⟩ ?_
    exact .ends (by decide) nofun
  exact ⟨halike, by decide, by decide, run_spellAlike.1 ⟨tokens, 3, 1⟩ ⟨moved, 0, 0⟩ halike⟩

end Parser

end Monkey
