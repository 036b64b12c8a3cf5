import Mathlib.Data.List.Forall2
import Monkey.Proofs.Parser.Overflow
import Monkey.Proofs.Report.Caret

/-!
# What hints tell

A record keeps the literal of its token but not the kind.  Hints and the end of the input are
told from the literal, which tells the kind of every token but of string literals.
-/

namespace Monkey

open Scanner

/-! ## Literals that tell the kind -/

/-- The kinds that a report looks for, with the literals that it takes for them. -/
def tellingLiterals : List (Kind × String) :=
  (.eof, "") :: (.eq, "==") :: Kind.keywords.map fun entry => (entry.2, entry.1)

/-- Tokens that are no string literals have a telling kind and its literal, or neither such a kind
    nor such a literal. -/
def Telling (kind : Kind) (literal : String) : Prop :=
  (kind, literal) ∈ tellingLiterals ∨ kind ∉ tellingLiterals.map Prod.fst ∧
    literal ∉ "end of input" :: tellingLiterals.map Prod.snd

instance (kind : Kind) (literal : String) : Decidable (Telling kind literal) :=
  inferInstanceAs (Decidable (_ ∨ _))

theorem telling_int {cs : List Char} (hne : cs ≠ []) (hcs : cs.all Char.isDigit) :
    Telling .int (String.ofList cs) := by
  refine .inr ⟨by decide, fun hmem => ?_⟩
  have hnone : ∀ s ∈ "end of input" :: tellingLiterals.map Prod.snd,
      s.toList = [] ∨ s.toList.all Char.isDigit = false := by decide
  simpa [hne, hcs] using hnone _ hmem

theorem telling_word {cs : List Char} (h : IsWord cs) :
    Telling (Kind.ofWord (String.ofList cs)) (String.ofList cs) := by
  rcases Kind.ofWord_eq_ident_or_mem (String.ofList cs) with hident | ⟨entry, hmem, rfl⟩
  · rw [hident]
    refine .inr ⟨by decide, fun hmem => ?_⟩
    have hnone : ∀ s ∈ "end of input" :: tellingLiterals.map Prod.snd, Kind.ofWord s = .ident →
        s.toList.head?.all isWordStart = false ∨ s.toList.tail.all isWordPart = false ∨ s = "" := by
      decide
    obtain ⟨c, rest, rfl, hstart, hrest⟩ := h
    simpa [hstart, hrest] using hnone _ hmem hident
  · exact .inl (List.mem_cons_of_mem _ (List.mem_cons_of_mem _ (List.mem_map_of_mem hmem)))

theorem telling_of_yields {pattern : Pattern} {m : List Char} {kind : Kind} {literal : List Char}
    (hpattern : pattern ∈ patterns) (haccepts : pattern.Accepts m)
    (hyields : pattern.Yields m kind literal) (hstring : kind ≠ .string) :
    Telling kind (String.ofList literal) := by
  cases pattern with
  | string => exact absurd hyields.1 hstring
  | integer =>
    obtain ⟨rfl, rfl⟩ := hyields
    exact telling_int haccepts.1 haccepts.2
  | word =>
    obtain ⟨rfl, rfl⟩ := hyields
    exact telling_word haccepts
  | symbol known =>
    obtain ⟨hkind, rfl⟩ := hyields
    have hoperators : ∀ known ∈ operators, Telling known known.name := by decide
    have hknown : known ∈ operators := by simpa [patterns] using hpattern
    rw [haccepts, String.ofList_toList, hkind]
    exact hoperators known hknown
  | illegal =>
    obtain ⟨rfl, rfl⟩ := hyields
    obtain ⟨c, rfl, -⟩ := haccepts
    refine .inr ⟨by decide, fun hmem => ?_⟩
    have hnone : ∀ s ∈ "end of input" :: tellingLiterals.map Prod.snd, s.toList.length ≠ 1 := by
      decide
    exact hnone _ hmem (by simp)

/-- No token but a string literal has a line feed in its literal. -/
theorem feed_notMem_of_yields {pattern : Pattern} {m : List Char} {kind : Kind}
    {literal : List Char} (hpattern : pattern ∈ patterns) (haccepts : pattern.Accepts m)
    (hyields : pattern.Yields m kind literal) (hstring : kind ≠ .string) : '\n' ∉ literal := by
  cases pattern with
  | string => exact absurd hyields.1 hstring
  | integer =>
    obtain ⟨-, rfl⟩ := hyields
    exact fun hfeed => absurd (List.all_eq_true.mp haccepts.2 _ hfeed) (by decide)
  | word =>
    obtain ⟨-, rfl⟩ := hyields
    obtain ⟨c, rest, rfl, hstart, hrest⟩ := haccepts
    rintro (_ | ⟨_, hfeed⟩)
    · exact absurd hstart (by decide)
    · exact absurd (List.all_eq_true.mp hrest _ hfeed) (by decide)
  | symbol known =>
    obtain ⟨-, rfl⟩ := hyields
    have hoperators : ∀ known ∈ operators, '\n' ∉ known.name.toList := by decide
    have hknown : known ∈ operators := by simpa [patterns] using hpattern
    rw [haccepts]
    exact hoperators known hknown
  | illegal =>
    obtain ⟨-, rfl⟩ := hyields
    obtain ⟨c, rfl, hblank⟩ := haccepts
    rintro (_ | ⟨_, ⟨⟩⟩)
    exact absurd hblank (by decide)

/-- All tokens but string literals tell their kinds and have literals of one line. -/
theorem telling_of_mem_scan {source : String} {t : Token} (h : t ∈ scan source)
    (hstring : t.kind ≠ .string) : Telling t.kind t.literal ∧ '\n' ∉ t.literal.toList := by
  obtain ⟨i, hi⟩ := exists_startsAt h
  cases hi with
  | spanned hpartition hst =>
    obtain ⟨pattern, hmatch, hyields⟩ := (hpartition.isToken _ hst).matched
    have haccepts := hmatch.longest.accepted
    refine ⟨?_, feed_notMem_of_yields hmatch.mem haccepts hyields hstring⟩
    rw [← String.ofList_toList (s := t.literal)]
    exact telling_of_yields hmatch.mem haccepts hyields hstring
  | final => exact ⟨.inl (List.mem_cons_self ..), List.not_mem_nil⟩

namespace Telling

variable {kind : Kind} {literal : String}

/-- A telling literal is the literal of its kind only. -/
theorem kind_eq_iff (h : Telling kind literal) {k : Kind} {s : String}
    (hks : (k, s) ∈ tellingLiterals) : kind = k ↔ literal = s := by
  have hunique : ∀ entry ∈ tellingLiterals, ∀ entry' ∈ tellingLiterals,
      entry.1 = entry'.1 ↔ entry.2 = entry'.2 := by decide
  rcases h with hmem | ⟨hkind, hliteral⟩
  · exact hunique _ hmem _ hks
  · refine ⟨?_, ?_⟩
    · rintro rfl
      exact absurd (List.mem_map_of_mem hks) hkind
    · rintro rfl
      exact absurd (List.mem_cons_of_mem _ (List.mem_map_of_mem hks)) hliteral

theorem ne_endOfInput (h : Telling kind literal) : literal ≠ "end of input" := by
  have hnone : ∀ entry ∈ tellingLiterals, entry.2 ≠ "end of input" := by decide
  rcases h with hmem | ⟨-, hliteral⟩
  · exact hnone _ hmem
  · rintro rfl
    exact hliteral (List.mem_cons_self ..)

end Telling

namespace Report

/-! ## Hints -/

variable {expected : List String} {literal : String}

/-- A hint about a keyword starts with the quote in front of it. -/
theorem keyword_ne {s : String} (w : String) (h : s.toList.head? ≠ some '\'') :
    "'" ++ w ++ "' is a keyword and cannot be used as a name" ≠ s := by
  rintro rfl
  exact h (by simp)

theorem mem_hints_ended : "The input ended early; the last expression is incomplete" ∈
    hints expected (some literal) ↔ literal = "" := by
  have hkeyword := (keyword_ne (s := "The input ended early; the last expression is incomplete")
    literal (by decide)).symm
  simp [hints, hkeyword]

theorem mem_hints_assign : "Bindings use a single '=': let x = 5;" ∈
    hints expected (some literal) ↔ "=" ∈ expected ∧ literal = "==" := by
  have hkeyword := (keyword_ne (s := "Bindings use a single '=': let x = 5;") literal
    (by decide)).symm
  simp [hints, hkeyword]

theorem mem_hints_keyword (w : String) :
    "'" ++ w ++ "' is a keyword and cannot be used as a name" ∈ hints expected (some literal) ↔
      "IDENT" ∈ expected ∧ w ∈ reservedWords ∧ literal = w := by
  have hinj : "'" ++ w ++ "' is a keyword and cannot be used as a name" =
      "'" ++ literal ++ "' is a keyword and cannot be used as a name" ↔ literal = w := by
    simp [eq_comm]
  simp (disch := decide) only [hints, List.mem_append, List.mem_ite_nil_right, List.mem_singleton,
    keyword_ne, hinj, and_false, or_false, false_or, Bool.and_eq_true, List.contains_iff_mem,
    and_assoc]
  refine and_congr_right fun _ => ⟨?_, ?_⟩
  all_goals
    rintro ⟨hword, rfl⟩
    exact ⟨hword, rfl⟩

/-! ## The line of what was found -/

theorem not_hasLine_got {s : String} (hfeed : '\n' ∉ s.toList) (h : s.toList[2]? ≠ some 'G') :
    ¬ Text.HasLine s "  Got: end of input" := by
  rw [Text.hasLine_iff_eq hfeed]
  rintro rfl
  exact h (by decide)

theorem feed_notMem_hints : ∀ hint ∈ hints expected (some literal), '\n' ∉ hint.toList := by
  have hreserved : ∀ w ∈ reservedWords, '\n' ∉ w.toList := by decide
  intro hint hmem
  simp only [hints, List.mem_append, List.mem_ite_nil_right, List.mem_singleton,
    Bool.and_eq_true, List.contains_iff_mem] at hmem
  rcases hmem with (((((⟨-, rfl⟩ | ⟨-, rfl⟩) | ⟨-, rfl⟩) | ⟨⟨-, hword⟩, rfl⟩) | ⟨-, rfl⟩) |
    ⟨-, rfl⟩)
  case inl.inl.inr => simp [hreserved _ hword]
  all_goals decide

/-- No line of a context is the line of what was found: it starts with a label or is the one with
    the caret. -/
theorem ShowsLine.ne_got {source : String} {k : Nat} {shown : String}
    (h : ShowsLine source k shown) : shown ≠ "  Got: end of input" := by
  obtain ⟨row, -, rfl⟩ := h
  have hlabel : 'G' ∉ (lineLabel (k + 1)).toList := by
    have hdigits : 'G' ∉ Nat.toDigits 10 (k + 1) := fun hmem =>
      absurd (Nat.isDigit_of_mem_toDigits (by decide) (by decide) hmem) (by decide)
    simp [toList_lineLabel, hdigits]
  have hlength : 2 < (lineLabel (k + 1)).toList.length := by
    rw [String.length_toList, length_lineLabel]
    omega
  intro heq
  have hthird := congrArg (fun s => s.toList[2]?) heq
  simp only [String.toList_append, List.getElem?_append_left hlength] at hthird
  exact hlabel (List.mem_of_getElem? (hthird.trans (by decide)))

theorem caretLine_ne_got (column : Int) : caretLine column ≠ "  Got: end of input" := by
  intro heq
  have hthird := congrArg (fun s => s.toList[2]?) heq
  have hspaces : 2 < (List.replicate (caretOffset + (column - 1).toNat) ' ').length := by
    rw [List.length_replicate, caretOffset]
    omega
  simp only [caretLine, String.toList_append, String.toList_ofList,
    List.getElem?_append_left hspaces] at hthird
  have hmem : 'G' ∈ List.replicate (caretOffset + (column - 1).toNat) ' ' :=
    List.mem_of_getElem? (hthird.trans (by decide))
  exact absurd (List.eq_of_mem_replicate hmem) (by decide)

/-- A record says that the input ended exactly if its literal is empty or, with the word in front
    of it, has a line that says so, provided that nothing else in it can be taken for that. -/
theorem hasLine_format_end {r : Record} (hgot : r.got = some literal)
    (hmessage : '\n' ∉ r.message.toList) (hfirst : r.message.toList[0]? ≠ some 'G')
    (hexpected : '\n' ∉ (Text.joined ", " r.expected).toList)
    (hcontext : ∀ context ∈ r.context, ¬ Text.HasLine context "  Got: end of input")
    (hhints : ∀ hint ∈ r.hints, '\n' ∉ hint.toList) :
    Text.HasLine r.format "  Got: end of input" ↔
      literal = "" ∨ Text.HasLine ("  Got: " ++ literal) "  Got: end of input" := by
  have hheading : ¬ Text.HasLine ("Parse error at line " ++ toString r.line ++ ", column " ++
      toString r.column ++ ":") "  Got: end of input" :=
    not_hasLine_got (by simp [Text.feed_notMem_repr]) (by simp)
  have hmessage : ¬ Text.HasLine ("  " ++ r.message) "  Got: end of input" :=
    not_hasLine_got (by simp [hmessage]) (by simpa using hfirst)
  have hexpected : ¬ Text.HasLine ("  Expected: " ++ Text.joined ", " r.expected)
      "  Got: end of input" :=
    not_hasLine_got (by simp [hexpected]) (by simp)
  have hhint (hint : String) (h : hint ∈ r.hints) :
      ¬ Text.HasLine ("    - " ++ hint) "  Got: end of input" :=
    not_hasLine_got (by simp [hhints hint h]) (by simp)
  rw [Record.format, Text.hasLine_lines, or_iff_left (by decide)]
  constructor
  · rintro ⟨s, hs, hline⟩
    simp only [Record.shownLines, hgot, List.mem_append] at hs
    -- The parts of a record, in the order in which they are shown: the third is what was found.
    rcases hs with (((hs | hs) | hs) | hs) | hs
    · simp only [List.mem_cons, List.not_mem_nil, or_false] at hs
      rcases hs with rfl | rfl
      · exact absurd hline hheading
      · exact absurd hline hmessage
    · split at hs
      · cases hs
      · exact absurd (List.mem_singleton.mp hs ▸ hline) hexpected
    · split at hs
      · cases ‹some literal = none›
      · exact .inl (Option.some.inj ‹some literal = some ""›)
      · cases ‹some literal = some _›
        exact .inr (List.mem_singleton.mp hs ▸ hline)
    · split at hs
      · cases hs
      · cases hs
      · simp only [List.mem_cons, List.not_mem_nil, or_false] at hs
        rcases hs with rfl | rfl
        · exact absurd hline (not_hasLine_got (by decide) (by decide))
        · exact absurd hline (hcontext _ ‹_›)
    · split at hs
      · cases hs
      · rcases List.mem_cons.mp hs with rfl | hs
        · exact absurd hline (not_hasLine_got (by decide) (by decide))
        · obtain ⟨hint, hmem, rfl⟩ := List.mem_map.mp hs
          exact absurd hline (hhint hint hmem)
  · have hend : Text.HasLine "  Got: end of input" "  Got: end of input" :=
      (Text.hasLine_iff_eq (by decide)).mpr rfl
    intro h
    by_cases hempty : literal = ""
    · exact ⟨_, by simp [Record.shownLines, hgot, hempty], hend⟩
    · exact ⟨_, by simp [Record.shownLines, hgot], h.resolve_left hempty⟩

end Report

/-! ## What stands in the other lines -/

theorem feed_notMem_name {source : String} {t : Token} (ht : t ∈ scan source) :
    '\n' ∉ t.kind.name.toList := by
  by_cases heof : t.kind = .eof
  · rw [heof]
    decide
  have hspells := Parser.spelt_scan source t ht heof
  generalize t.kind = kind, t.literal.toList = cs at hspells
  cases hspells with
  | string | illegal | int => decide
  | word =>
    rcases Kind.ofWord_eq_ident_or_mem (String.ofList cs) with hident | ⟨entry, hmem, hentry⟩
    · rw [hident]
      decide
    · have hkeywords : ∀ entry ∈ Kind.keywords, '\n' ∉ entry.2.name.toList := by decide
      rw [hentry] at hmem
      exact hkeywords _ hmem
  | symbol hmem =>
    have hsymbols : ∀ kind ∈ Kind.symbols, '\n' ∉ kind.name.toList := by decide
    exact hsymbols _ hmem

theorem feed_notMem_expectable : ∀ kind ∈ Parser.expectable, '\n' ∉ kind.name.toList := by
  decide

theorem feed_notMem_message {source : String} {d : Diagnostic} (ht : d.token ∈ scan source)
    (hd : Parser.Reportable d) : '\n' ∉ d.message.toList := by
  have hname := feed_notMem_name ht
  cases hd with
  | unexpected hmem _ => simp [Diagnostic.message, feed_notMem_expectable _ hmem, hname]
  | noExpression => simp [Diagnostic.message, hname]
  | outOfRange hint =>
    have hliteral := (telling_of_mem_scan ht (by rw [hint]; decide)).2
    simp [Diagnostic.message, hliteral]

theorem feed_notMem_expected {d : Diagnostic} (hd : Parser.Reportable d) :
    '\n' ∉ (Text.joined ", " d.expected).toList := by
  cases hd with
  | unexpected hmem _ => simpa [Diagnostic.expected] using feed_notMem_expectable _ hmem
  | noExpression | outOfRange => exact List.not_mem_nil

/-- No line around a token is the line of what was found. -/
theorem not_hasLine_context {source : String} {t : Token} (ht : t ∈ scan source) :
    ¬ Text.HasLine (Report.context source t.line t.column Report.contextMargin)
      "  Got: end of input" := by
  obtain ⟨i, m, offset, row, hstands⟩ := exists_stands ht
  obtain ⟨above, below, hparts, hother⟩ := hstands.parts_context
  unfold Text.HasLine
  rw [hparts]
  intro hmem
  obtain ⟨shown, hshown, heq⟩ := List.mem_map.mp hmem
  obtain rfl := String.toList_inj.mp heq
  simp only [List.mem_append, List.mem_cons, List.not_mem_nil, or_false] at hshown hother
  rcases hshown with (habove | hrow | hcaret) | hbelow
  · obtain ⟨k, -, hk⟩ := hother _ (.inl habove)
    exact hk.ne_got rfl
  · exact Report.ShowsLine.ne_got ⟨row, hstands.listed, rfl⟩ hrow.symm
  · exact Report.caretLine_ne_got _ hcaret.symm
  · obtain ⟨k, -, hk⟩ := hother _ (.inr hbelow)
    exact hk.ne_got rfl

/-! ## Records and reports -/

/-- What a record tells of its token: that the input ended, that a keyword is no name, that an
    equality sign is no assignment.  It is told wrongly of string literals only, and of those
    that spell what the other tokens are told by.  That the input ended is told on a line of its
    own, so also by a string literal of several lines with such a line among them. -/
structure Report.Tells (t : Token) (r : Record) : Prop where
  ended : Text.HasLine r.format "  Got: end of input" ↔
    t.kind = .eof ∨ t.kind = .string ∧
      (t.literal = "" ∨ Text.HasLine ("  Got: " ++ t.literal) "  Got: end of input")
  endedEarly : "The input ended early; the last expression is incomplete" ∈ r.hints ↔
    t.kind = .eof ∨ t.kind = .string ∧ t.literal = ""
  keyword : ∀ w, "'" ++ w ++ "' is a keyword and cannot be used as a name" ∈ r.hints ↔
    "IDENT" ∈ r.expected ∧ w ∈ reservedWords ∧
      (t.kind = Kind.ofWord w ∨ t.kind = .string ∧ t.literal = w)
  assign : "Bindings use a single '=': let x = 5;" ∈ r.hints ↔
    "=" ∈ r.expected ∧ (t.kind = .eq ∨ t.kind = .string ∧ t.literal = "==")

/-- A telling literal is that of its kind or of a string literal. -/
theorem literal_eq_iff {source : String} {t : Token} (ht : t ∈ scan source) {k : Kind}
    {s : String} (hks : (k, s) ∈ tellingLiterals) :
    t.literal = s ↔ t.kind = k ∨ t.kind = .string ∧ t.literal = s := by
  have hk : k ≠ .string := by
    have hnone : ∀ entry ∈ tellingLiterals, entry.1 ≠ .string := by decide
    exact hnone _ hks
  by_cases hstring : t.kind = .string
  · simp [hstring, hk.symm]
  · simp [hstring, (telling_of_mem_scan ht hstring).1.kind_eq_iff hks]

/-- The line of what was found says that the input ended if the token is that end, or a string
    literal. -/
theorem hasLine_got_iff {source : String} {t : Token} (ht : t ∈ scan source) :
    t.literal = "" ∨ Text.HasLine ("  Got: " ++ t.literal) "  Got: end of input" ↔
      t.kind = .eof ∨ t.kind = .string ∧
        (t.literal = "" ∨ Text.HasLine ("  Got: " ++ t.literal) "  Got: end of input") := by
  by_cases hstring : t.kind = .string
  · simp [hstring]
  · obtain ⟨htelling, hfeed⟩ := telling_of_mem_scan ht hstring
    have hline : ¬ Text.HasLine ("  Got: " ++ t.literal) "  Got: end of input" := by
      rw [Text.hasLine_iff_eq (by simp [hfeed])]
      exact fun heq => htelling.ne_endOfInput (String.append_right_inj _ |>.mp heq.symm)
    simp [hstring, hline, htelling.kind_eq_iff (List.mem_cons_self ..)]

theorem record_tells {source : String} {p : Parse} (h : parse source = .ok p) {d : Diagnostic}
    (hd : d ∈ p.diagnostics) :
    Report.Tells d.token ((Report.Record.ofDiagnostic d).withSource source) := by
  have ht := token_mem_of_parse h d hd
  constructor
  case ended =>
    have hreportable := Parser.reportable_of_run h d hd
    have hfirst : d.message.toList[0]? ≠ some 'G' := by
      unfold Diagnostic.message
      split <;> simp
    refine Iff.trans ?_ (hasLine_got_iff ht)
    refine Report.hasLine_format_end rfl (feed_notMem_message ht hreportable) hfirst
      (feed_notMem_expected hreportable) ?_ Report.feed_notMem_hints
    rintro _ ⟨⟩
    exact not_hasLine_context ht
  case endedEarly =>
    exact Report.mem_hints_ended.trans (literal_eq_iff ht (List.mem_cons_self ..))
  case keyword =>
    intro w
    have hkeyword : ∀ w ∈ Report.reservedWords, (Kind.ofWord w, w) ∈ tellingLiterals := by decide
    refine (Report.mem_hints_keyword w).trans ?_
    refine and_congr_right fun _ => and_congr_right fun hw => ?_
    exact literal_eq_iff ht (hkeyword w hw)
  case assign =>
    refine Report.mem_hints_assign.trans (and_congr_right fun _ => ?_)
    exact literal_eq_iff ht (List.mem_cons_of_mem _ (List.mem_cons_self ..))

/-- The lines of a report are those of its heading and of its records. -/
theorem Report.hasLine_text {r : Report} (hne : r.records ≠ []) (line : String) :
    Text.HasLine r.text line ↔
      Text.HasLine (r.summary ++ ":") line ∨ ∃ record ∈ r.records,
        Text.HasLine record.format line := by
  have htext : r.text =
      r.summary ++ ":" ++ "\n" ++ Text.joined "\n" (r.records.map Record.format) := by
    have hcolon : ":\n" = ":" ++ "\n" := by decide
    rw [text, hcolon, ← String.append_assoc]
  rw [htext, Text.hasLine_append_feed, Text.hasLine_joined (by simpa using hne)]
  simp

/-- Every record of a report tells of its token what is true, string literals apart, and what the
    records tell stands in the text of the report, below its heading. -/
theorem report_tells {source : String} {p : Parse} (h : parse source = .ok p) (fileName : String) :
    List.Forall₂ (fun d r => Report.Tells d.token r) p.diagnostics
        (Report.ofDiagnostics p.diagnostics source fileName).records ∧
      (p.diagnostics ≠ [] → ∀ line,
        Text.HasLine (Report.ofDiagnostics p.diagnostics source fileName).text line ↔
          Text.HasLine ((Report.ofDiagnostics p.diagnostics source fileName).summary ++ ":") line ∨
          ∃ r ∈ (Report.ofDiagnostics p.diagnostics source fileName).records,
            Text.HasLine r.format line) := by
  have hrecords : (Report.ofDiagnostics p.diagnostics source fileName).records =
      p.diagnostics.map fun d => (Report.Record.ofDiagnostic d).withSource source := by
    unfold Report.ofDiagnostics Report.ofRecords
    by_cases hempty : source.isEmpty
    · -- The empty text has no mistakes.
      obtain rfl : source = "" := String.isEmpty_iff.mp hempty
      have hnone : (parse "").map Parse.diagnostics = .ok [] := by decide
      rw [h] at hnone
      simp [Except.ok.inj hnone]
    · rw [if_neg hempty, List.map_map]
      rfl
  constructor
  · rw [hrecords, List.forall₂_map_right_iff]
    exact List.forall₂_same.mpr fun d hd => record_tells h hd
  · intro hne
    exact Report.hasLine_text (by simpa [hrecords] using hne)

/-- The empty string literal is taken for the end of the text, as is that end. -/
theorem report_tells_empty :
    ∃ p r r', parse "let \"\"; let" = .ok p ∧
      p.diagnostics = [⟨.unexpected .ident, ⟨.string, "", 1, 5⟩⟩,
        ⟨.unexpected .ident, ⟨.eof, "", 1, 12⟩⟩] ∧
      (Report.ofDiagnostics p.diagnostics "let \"\"; let" "<input>").records = [r, r'] ∧
      Text.HasLine r.format "  Got: end of input" ∧
      Text.HasLine r'.format "  Got: end of input" ∧
      Text.HasLine (Report.ofDiagnostics p.diagnostics "let \"\"; let" "<input>").text
        "  Got: end of input" := by
  have hfacts : (parse "let \"\"; let").map Parse.diagnostics =
      .ok [⟨.unexpected .ident, ⟨.string, "", 1, 5⟩⟩,
        ⟨.unexpected .ident, ⟨.eof, "", 1, 12⟩⟩] := by decide
  obtain ⟨p, hp, hdiagnostics⟩ := exists_of_map_ok hfacts
  obtain ⟨htells, hlines⟩ := report_tells hp "<input>"
  have hlines := hlines (by simp [hdiagnostics]) "  Got: end of input"
  rw [hdiagnostics] at htells
  obtain ⟨r, _, hr, hrest, hrecords⟩ := List.forall₂_cons_left_iff.mp htells
  obtain ⟨r', _, hr', hnil, rfl⟩ := List.forall₂_cons_left_iff.mp hrest
  obtain rfl := List.forall₂_nil_left_iff.mp hnil
  rw [← hdiagnostics] at hrecords
  have hended := hr.ended.mpr (.inr ⟨rfl, .inl rfl⟩)
  refine ⟨p, r, r', hp, hdiagnostics, hrecords, hended, hr'.ended.mpr (.inl rfl), ?_⟩
  exact hlines.mpr (.inr ⟨r, by simp [hrecords], hended⟩)

end Monkey
