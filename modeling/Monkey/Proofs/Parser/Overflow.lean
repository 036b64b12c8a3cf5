import Monkey.Proofs.Parser.Accounts
import Monkey.Proofs.Parser.Shape
import Monkey.Proofs.Token.Spelling

/-!
# Integer literals that do not fit

Every integer literal of a source text is read exactly once, whatever mistakes stand around
it.  A literal whose value does not fit is reported; one with more digits than can be read at
all stops the parser, whatever its value.
-/

namespace Monkey

namespace Token

/-- Whether a token is an integer literal with more digits than can be read. -/
def isLong (t : Token) : Bool := t.kind = .int && Numeral.digitLimit < t.literal.length

/-- Whether a token is an integer literal whose value does not fit. -/
def exceeds (t : Token) : Bool :=
  t.kind = .int && Parser.greatestInteger < (Nat.ofDigitChars 10 t.literal.toList 0 : Nat)

theorem isLong_of_kind {t : Token} (h : t.kind ≠ .int) : t.isLong = false := by
  simp [isLong, h]

theorem exceeds_of_kind {t : Token} (h : t.kind ≠ .int) : t.exceeds = false := by
  simp [exceeds, h]

end Token

/-! ## Literals that are read -/

namespace Token

variable {t : Token}

theorem read_literal (hspells : Scanner.Spells .int t.literal.toList) :
    Numeral.read t.literal =
      if Numeral.digitLimit < t.literal.length then .error (.tooLong t.literal.length)
      else .ok (Nat.ofDigitChars 10 t.literal.toList 0 : Nat) := by
  obtain ⟨hne, hdigits⟩ := Parser.digits_of_spells hspells
  have hread := Numeral.read_digits hne (List.all_eq_true.mp hdigits)
  rwa [String.ofList_toList, Numeral.digitsValue_eq, String.length_toList] at hread

/-- A literal that is read is not too long, and does not fit if its value is too great. -/
theorem counts_of_read (hk : t.kind = .int) (hspells : Scanner.Spells .int t.literal.toList)
    {n : Int} (h : Numeral.read t.literal = .ok n) :
    t.isLong = false ∧ t.exceeds = decide (Parser.greatestInteger < n) := by
  rw [read_literal hspells] at h
  split at h
  · cases h
  · next hshort =>
    cases h
    simp [isLong, exceeds, hk, hshort]

theorem isLong_of_read (hk : t.kind = .int) (hspells : Scanner.Spells .int t.literal.toList)
    {refusal : Numeral.Refusal} (h : Numeral.read t.literal = .error refusal) :
    t.isLong ∧ refusal = .tooLong t.literal.length := by
  rw [read_literal hspells] at h
  split at h
  · next hlong =>
    cases h
    simp [isLong, hk, hlong]
  · cases h

end Token

/-- Whether a mistake is a literal that does not fit. -/
def Diagnostic.isOverflow (d : Diagnostic) : Bool := d.cause = .outOfRange

namespace Parser

open Grammar Scanner

/-! ## The ledger -/

namespace State

/-- The literals reported so far because they do not fit, the oldest first. -/
def overflows (s : State) : List Diagnostic := (s.reports.filter Diagnostic.isOverflow).reverse

/-- The reports of literals that are due in all, those made and those to come from the tokens
    not yet read, and which of these tokens cannot be read. -/
def ledger (s : State) (unread : List Token) : List Diagnostic × List Token :=
  (s.overflows ++ (unread.filter Token.exceeds).map (⟨.outOfRange, ·⟩),
    unread.filter Token.isLong)

/-- A token that does not count changes nothing in the ledger. -/
theorem ledger_tail {s : State} (hlong : s.current.isLong = false)
    (hexceeds : s.current.exceeds = false) : s.ledger s.rest = s.ledger s.rest.tail := by
  cases hrest : s.rest with
  | nil => rfl
  | cons c cs =>
    have hc : s.current = c := by simp [current, hrest]
    rw [hc] at hlong hexceeds
    simp [ledger, hlong, hexceeds]

/-- The report of a literal that does not fit was due. -/
theorem ledger_note_outOfRange {s : State} (hlong : s.current.isLong = false)
    (hexceeds : s.current.exceeds = true) (hne : s.current.kind ≠ .eof) :
    (s.note (.reported ⟨.outOfRange, s.current⟩)).ledger s.rest.tail = s.ledger s.rest := by
  rw [rest_eq_cons hne]
  simp [ledger, overflows, Diagnostic.isOverflow, hlong, hexceeds]

/-- A report that is not about a literal changes nothing in the ledger. -/
theorem ledger_note_reported {s : State} {d : Diagnostic} (hd : d.isOverflow = false)
    (unread : List Token) : (s.note (.reported d)).ledger unread = s.ledger unread := by
  simp [ledger, overflows, hd]

end State

/-- The tokens left are some of a stream, and with the reports made and the tokens not yet read
    the ledger is that of the whole stream. -/
structure Settled (stream : TokenStream) (unread : List Token) (s : State) : Prop where
  rest : s.rest <:+ stream.tokens
  ledger : s.ledger unread = (State.ofStream stream).ledger stream.tokens

namespace Settled

variable {stream : TokenStream} {unread : List Token} {s : State}

theorem advance (h : Settled stream unread s) : Settled stream unread s.advance :=
  ⟨(List.tail_suffix _).trans h.rest, h.ledger⟩

theorem reported (h : Settled stream unread s) {d : Diagnostic} (hd : d.isOverflow = false) :
    Settled stream unread (s.note (.reported d)) :=
  ⟨h.rest, (State.ledger_note_reported hd unread).trans h.ledger⟩

/-- A token that does not count is read. -/
theorem read (h : Settled stream s.rest s) (hlong : s.current.isLong = false)
    (hexceeds : s.current.exceeds = false) : Settled stream s.rest.tail s :=
  ⟨h.rest, (State.ledger_tail hlong hexceeds).symm.trans h.ledger⟩

theorem pass (h : Settled stream s.rest s) (hk : s.current.kind ≠ .int) :
    Settled stream s.rest.tail s :=
  h.read (Token.isLong_of_kind hk) (Token.exceeds_of_kind hk)

theorem spells_current (h : Settled stream unread s) (hspelt : Spelt stream.tokens)
    (hk : s.current.kind = .int) : Spells .int s.current.literal.toList :=
  hk ▸ (hspelt.suffix h.rest).current (by rw [hk]; decide)

end Settled

/-- Every step settles the ledger, and only a literal with too many digits stops parsing. -/
def Invariant.settled {stream : TokenStream} (hspelt : Spelt stream.tokens) : Invariant where
  World := Unit
  stand
    | _, .turn, s | _, .fresh, s => Settled stream s.rest s
    | _, .spent, s | _, .gone, s => Settled stream s.rest.tail s
  refused refusal := ∃ t ∈ stream.tokens, t.isLong ∧ refusal = .tooLong t.literal.length
  read h hk := h.pass hk
  advance h := h.advance
  began rule hp h := by
    rcases hp with rfl | rfl <;> exact ⟨h.rest, h.ledger⟩
  integer h hk hread hle := by
    obtain ⟨hlong, hexceeds⟩ := Token.counts_of_read hk (h.spells_current hspelt hk) hread
    exact h.read hlong (hexceeds.trans (decide_eq_false (Int.not_lt.mpr hle)))
  outOfRange h hk hread hlt := by
    obtain ⟨hlong, hexceeds⟩ := Token.counts_of_read hk (h.spells_current hspelt hk) hread
    have hledger := State.ledger_note_outOfRange hlong (hexceeds.trans (decide_eq_true hlt))
      (by rw [hk]; decide)
    exact ⟨h.rest, hledger.trans h.ledger⟩
  refuses h hk hread := by
    have hmem := h.rest.subset (State.current_mem_rest (by rw [hk]; decide))
    exact ⟨_, hmem, Token.isLong_of_read hk (h.spells_current hspelt hk) hread⟩
  noExpression h hk := (h.pass hk).reported rfl
  unexpected h _ _ := h.reported rfl
  body h := h.advance
  ended h hk := h.pass (by rcases hk with hk | hk <;> rw [hk] <;> decide)
  attempted h _ := ⟨(), ⟨h.rest, h.ledger⟩, fun ht => ht.advance,
    fun ht => ⟨(List.tail_suffix _).trans ht.rest, ht.ledger⟩⟩

/-- At the end of the input no tokens are left. -/
theorem rest_tail_eq_nil {s : State} (hlast : EofLast s.rest) (h : s.current.kind = .eof) :
    s.rest.tail = [] := by
  cases hrest : s.rest with
  | nil => rfl
  | cons c cs =>
    have hc : c.kind = .eof := by simpa [State.current, hrest] using h
    exact hlast [] c cs hrest hc

/-- Every integer literal of a stream is read once: one that has too many digits stops the
    parse, and if there is none those that do not fit are reported in order. -/
theorem run_overflows {stream : TokenStream} (hspelt : Spelt stream.tokens)
    (hlast : EofLast stream.tokens) :
    match run stream with
    | .ok p => stream.tokens.filter Token.isLong = [] ∧
      p.diagnostics.filter Diagnostic.isOverflow =
        (stream.tokens.filter Token.exceeds).map (⟨.outOfRange, ·⟩)
    | .error refusal =>
      ∃ t ∈ stream.tokens, t.isLong ∧ refusal = .tooLong t.literal.length := by
  have hstart : Settled stream stream.tokens (.ofStream stream) := ⟨List.suffix_refl _, rfl⟩
  rcases (Invariant.settled hspelt).run_ends (w := ()) hstart with
    ⟨ss, t, hrun, hsettled, hdeep⟩ | ⟨refusal, hrun, hrefused⟩
  · have hsettled : Settled stream t.rest.tail t := hsettled
    have hend : t.current.kind = .eof := (statements_ends (hdeep _ le_rfl)).resolve_right nofun
    have hnil : t.rest.tail = [] := rest_tail_eq_nil (hlast.suffix hsettled.rest) hend
    have hledger : t.ledger [] = (State.ofStream stream).ledger stream.tokens :=
      hnil ▸ hsettled.ledger
    simp only [State.ledger, List.filter_nil, List.map_nil, List.append_nil, Prod.mk.injEq]
      at hledger
    have hdiagnostics : Parse.diagnostics ⟨ss, t.log.reverse⟩ = t.reports.reverse :=
      diagnostics_eq rfl
    rw [hrun]
    refine ⟨hledger.2.symm, ?_⟩
    calc (Parse.diagnostics ⟨ss, t.log.reverse⟩).filter Diagnostic.isOverflow
      _ = t.overflows := by rw [hdiagnostics, List.filter_reverse, State.overflows]
      _ = (stream.tokens.filter Token.exceeds).map (⟨.outOfRange, ·⟩) := hledger.1
  · rw [hrun]
    exact hrefused

end Parser

/-- A source text that is not parsed has an integer literal with too many digits. -/
theorem exists_isLong_of_parse {source : String} {refusal : Numeral.Refusal}
    (h : parse source = .error refusal) : ∃ t ∈ scan source, t.isLong := by
  have hrun := @Parser.run_overflows (.ofSource source) (Parser.spelt_scan source)
    (eofLast_scan source)
  unfold parse at h
  rw [h] at hrun
  obtain ⟨t, ht, hlong, -⟩ := hrun
  exact ⟨t, ht, hlong⟩

/-- Every integer literal of a parsed source text that does not fit is among its errors. -/
theorem mem_errors_of_exceeds {source : String} {p : Parse} (h : parse source = .ok p)
    {t : Token} (ht : t ∈ scan source) (hexceeds : t.exceeds) :
    "could not parse \"" ++ t.literal ++ "\" as integer" ∈ p.errors := by
  have hrun := @Parser.run_overflows (.ofSource source) (Parser.spelt_scan source)
    (eofLast_scan source)
  unfold parse at h
  rw [h] at hrun
  have hdue : (⟨.outOfRange, t⟩ : Diagnostic) ∈ p.diagnostics.filter Diagnostic.isOverflow := by
    rw [hrun.2]
    exact List.mem_map_of_mem (List.mem_filter.mpr ⟨ht, hexceeds⟩)
  exact List.mem_map_of_mem (f := Diagnostic.message) (List.mem_filter.mp hdue).1

/-- Parsing a source text fails only at an integer literal with too many digits, and if there
    is one it does.  Otherwise the literals that are reported are those of the source that do
    not fit, each once and in order. -/
theorem parse_overflows (source : String) :
    match parse source with
    | .ok p => (scan source).filter Token.isLong = [] ∧
      p.diagnostics.filter Diagnostic.isOverflow =
        ((scan source).filter Token.exceeds).map (⟨.outOfRange, ·⟩) ∧
      ∀ t ∈ scan source, t.exceeds →
        "could not parse \"" ++ t.literal ++ "\" as integer" ∈ p.errors
    | .error refusal => ∃ t ∈ scan source, t.isLong ∧ refusal = .tooLong t.literal.length := by
  have hrun := @Parser.run_overflows (.ofSource source) (Parser.spelt_scan source)
    (eofLast_scan source)
  unfold parse
  split at hrun
  · next p _ =>
    refine ⟨hrun.1, hrun.2, fun t ht hexceeds => ?_⟩
    have hdue : (⟨.outOfRange, t⟩ : Diagnostic) ∈ p.diagnostics.filter Diagnostic.isOverflow := by
      rw [hrun.2]
      exact List.mem_map_of_mem (List.mem_filter.mpr ⟨ht, hexceeds⟩)
    exact List.mem_map_of_mem (f := Diagnostic.message) (List.mem_filter.mp hdue).1
  · exact hrun

/-- A source text that is one literal with too many digits is not parsed at all. -/
theorem parse_digits {cs : List Char} (hdigits : ∀ c ∈ cs, c.isDigit)
    (hlong : Numeral.digitLimit < cs.length) :
    parse (String.ofList cs) = .error (.tooLong cs.length) := by
  have hne : cs ≠ [] := List.ne_nil_of_length_pos (by omega)
  have hwords : wordsOf (scan (String.ofList cs)) = [⟨.int, String.ofList cs⟩] := by
    have hcs : Scanner.wordsIn (cs ++ []) = [⟨.int, String.ofList cs⟩] :=
      Scanner.wordsIn_digits hne (List.all_eq_true.mpr hdigits) nofun
    rw [List.append_nil] at hcs
    unfold scan
    rwa [String.toList_ofList]
  obtain ⟨tokens, hscan, hspelt⟩ := scan_eq (String.ofList cs)
  rw [wordsOf_scan hscan hspelt, List.map_eq_singleton_iff] at hwords
  obtain ⟨t, rfl, ht⟩ := hwords
  have hkind : t.kind = .int := congrArg Word.kind ht
  have hliteral : t.literal = String.ofList cs := congrArg Word.literal ht
  have hlength : t.literal.length = cs.length := by rw [hliteral, String.length_ofList]
  have ht : t.isLong = true := by simp [Token.isLong, hkind, hlength, hlong]
  have hend : (endOfSource (String.ofList cs)).isLong = false := Token.isLong_of_kind nofun
  have hrun := @Parser.run_overflows (.ofSource (String.ofList cs)) (Parser.spelt_scan _)
    (eofLast_scan _)
  have hscan : (TokenStream.ofSource (String.ofList cs)).tokens = [t] ++ [endOfSource _] := hscan
  rw [hscan] at hrun
  unfold parse
  split at hrun
  · simp [ht] at hrun
  · next heq =>
    obtain ⟨u, hu, hlong, rfl⟩ := hrun
    rw [heq]
    rcases List.mem_append.mp hu with hu | hu <;> rw [List.mem_singleton.mp hu] at hlong ⊢
    · rw [hlength]
    · simp [hend] at hlong

end Monkey
