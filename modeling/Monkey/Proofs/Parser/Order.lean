import Monkey.Proofs.Parser.Chronicle
import Monkey.Proofs.Token.Places
import Monkey.Report.Record

/-!
# Mistakes in the order of the source

The mistakes in a source text are reported in the order of the tokens that they are about, which
are tokens of the text.  About a token that is not the end of the text there are at most two: it
did not fit into a statement, and the next statement, which starts with it, could not be read.
-/

namespace Monkey

namespace Parser

variable {stream : TokenStream}

/-- How often a mistake has been reported about the token at a position, and when: what happened
    is in order here, the oldest event first. -/
inductive Told (token : Token) (i : Nat) (events : List Event) : List Diagnostic → Prop
  | never : Told token i events []
  | once (d : Diagnostic) : Told token i events [d]
  /-- The statement that the token did not fit into was given up, and the next one was taken up
      at the token, which then was the current one. -/
  | again {kind : Kind} {cause : Cause} {j : Nat} {begun : List Event} : cause.IsCurrent →
      BeganAt token begun →
      [.reported ⟨.unexpected kind, token⟩, .dropped j, .attempted i] ++ begun ++
        [.reported ⟨cause, token⟩] <:+: events →
      Told token i events [⟨.unexpected kind, token⟩, ⟨cause, token⟩]

theorem Told.mono {token : Token} {i : Nat} {events events' : List Event} {ds : List Diagnostic}
    (h : Told token i events ds) (hevents : events <:+: events') : Told token i events' ds := by
  cases h with
  | never => exact .never
  | once d => exact .once d
  | again hcause hbegun htold => exact .again hcause hbegun (htold.trans hevents)

theorem reports_cons (d : Diagnostic) (log : List Event) :
    (Event.reported d :: log).filterMap Event.diagnostic? =
      d :: log.filterMap Event.diagnostic? := rfl

theorem Told.length_le {token : Token} {i : Nat} {events : List Event} {ds : List Diagnostic}
    (h : Told token i events ds) : ds.length ≤ 2 := by
  cases h <;> simp

theorem BeganAt.reverse {token : Token} {events : List Event} (h : BeganAt token events) :
    BeganAt token events.reverse := by
  intro e he
  exact h e (List.mem_reverse.mp he)

namespace Chronicle

variable {bound : Nat} {log : List Event}

/-- The mistakes in a log about a token that was reported twice, and in what is older. -/
theorem reports_again {token : Token} {i j : Nat} {kind : Kind} {cause : Cause}
    {begun : List Event} (hbegun : BeganAt token begun) :
    (Event.reported ⟨cause, token⟩ :: (begun ++ .attempted i :: .dropped j ::
        .reported ⟨.unexpected kind, token⟩ :: log)).filterMap Event.diagnostic? =
      ⟨cause, token⟩ :: ⟨.unexpected kind, token⟩ :: log.filterMap Event.diagnostic? := by
  have hquiet : begun.filterMap Event.diagnostic? = [] :=
    List.filterMap_eq_nil_iff.mpr hbegun.diagnostic?
  rw [reports_cons, List.filterMap_append, hquiet]
  rfl

/-- Every mistake is about a token before the bound. -/
theorem exists_index (h : Chronicle stream bound log) :
    ∀ d ∈ log.filterMap Event.diagnostic?, ∃ i < bound, d.token = stream.token i := by
  induction h with
  | nil => simp
  | note he _ ih => rwa [List.filterMap_cons_none he]
  | first hi htoken _ ih =>
    rw [reports_cons, List.forall_mem_cons]
    refine ⟨⟨_, hi, htoken⟩, fun d hd => ?_⟩
    obtain ⟨k, hk, hd⟩ := ih d hd
    exact ⟨k, hk.trans hi, hd⟩
  | again hi _ hbegun _ ih =>
    rw [reports_again hbegun, List.forall_mem_cons, List.forall_mem_cons]
    refine ⟨⟨_, hi, rfl⟩, ⟨_, hi, rfl⟩, fun d hd => ?_⟩
    obtain ⟨k, hk, hd⟩ := ih d hd
    exact ⟨k, hk.trans hi, hd⟩

/-- Where the tokens of a stream are in order, so are the mistakes. -/
theorem inOrder (hplace : ∀ i k, i ≤ k → (stream.token i).place ≤ (stream.token k).place)
    (h : Chronicle stream bound log) :
    (log.filterMap Event.diagnostic?).Pairwise fun d e => e.token.place ≤ d.token.place := by
  induction h with
  | nil => simp
  | note he _ ih => rwa [List.filterMap_cons_none he]
  | @first _ i d log _ htoken h ih =>
    have hd : ∀ e ∈ log.filterMap Event.diagnostic?, e.token.place ≤ d.token.place := by
      intro e he
      obtain ⟨k, hk, he⟩ := h.exists_index e he
      rw [he, htoken]
      exact hplace k i hk.le
    rw [reports_cons, List.pairwise_cons]
    exact ⟨hd, ih⟩
  | @again _ i _ _ _ _ log _ _ hbegun h ih =>
    have hd : ∀ e ∈ log.filterMap Event.diagnostic?, e.token.place ≤ (stream.token i).place := by
      intro e he
      obtain ⟨k, hk, he⟩ := h.exists_index e he
      rw [he]
      exact hplace k i hk.le
    rw [reports_again hbegun, List.pairwise_cons, List.pairwise_cons, List.forall_mem_cons]
    exact ⟨⟨le_rfl, hd⟩, hd, ih⟩

/-- About a token that stands at one position only, mistakes are reported as it may be told. -/
theorem told {token : Token} {i : Nat} (htoken : ∀ k, stream.token k = token ↔ k = i)
    (h : Chronicle stream bound log) :
    Told token i log.reverse
      ((log.filterMap Event.diagnostic?).reverse.filter fun d => d.token = token) := by
  -- As long as the bound has not passed the token, there is nothing about it.
  have hnone {bound : Nat} {log : List Event} (h : Chronicle stream bound log) (hle : bound ≤ i) :
      (log.filterMap Event.diagnostic?).reverse.filter (fun d => d.token = token) = [] := by
    simp only [List.filter_eq_nil_iff, List.mem_reverse, decide_eq_true_eq]
    intro d hd heq
    obtain ⟨k, hk, hd⟩ := h.exists_index d hd
    have hki := (htoken k).mp (hd.symm.trans heq)
    omega
  induction h with
  | nil => exact .never
  | note he _ ih =>
    rw [List.filterMap_cons_none he, List.reverse_cons]
    exact ih.mono (List.prefix_append _ _).isInfix
  | @first _ k d log hk hd h ih =>
    rw [reports_cons, List.reverse_cons, List.reverse_cons, List.filter_append]
    by_cases hki : k = i
    · subst hki
      rw [hnone h le_rfl]
      simpa [hd, (htoken k).mpr rfl] using Told.once d
    · have hne : d.token ≠ token := by rw [hd]; exact mt (htoken k).mp hki
      simpa [hne] using ih.mono (List.prefix_append _ _).isInfix
  | @again _ k j kind cause begun log hk hcause hbegun h ih =>
    rw [reports_again hbegun]
    simp only [List.reverse_cons, List.filter_append, List.reverse_append, List.append_assoc]
    by_cases hki : k = i
    · subst hki
      rw [(htoken k).mpr rfl] at hbegun ⊢
      rw [hnone h le_rfl]
      have hself (c : Cause) : [⟨c, token⟩].filter (fun d : Diagnostic => d.token = token) =
          [⟨c, token⟩] := by simp
      rw [hself, hself]
      refine .again (j := j) hcause hbegun.reverse ⟨log.reverse, [], ?_⟩
      simp
    · have hne : stream.token k ≠ token := mt (htoken k).mp hki
      simpa [hne] using ih.mono (List.prefix_append _ _).isInfix

end Chronicle

end Parser

/-! ## Mistakes in a source text -/

namespace TokenStream

/-- What comes behind the last token of a source text is that token again. -/
theorem getElem?_scan_token (source : String) (i : Nat) :
    (scan source)[min i ((scan source).length - 1)]? = some ((ofSource source).token i) := by
  obtain ⟨tokens, hscan, -⟩ := scan_eq source
  have htokens : (ofSource source).tokens = tokens ++ [endOfSource source] := hscan
  have hfinal : (ofSource source).final = endOfSource source := rfl
  rw [token, htokens, hfinal, hscan, List.length_append, List.length_singleton,
    Nat.add_sub_cancel, List.getD_eq_getElem?_getD]
  rcases Nat.lt_or_ge i tokens.length with hi | hi
  · rw [Nat.min_eq_left hi.le, List.getElem?_append_left hi, List.getElem?_eq_getElem hi,
      Option.getD_some]
  · rw [Nat.min_eq_right hi, List.getElem?_concat_length, List.getElem?_append_right hi]
    cases i - tokens.length <;> rfl

theorem token_mem_scan (source : String) (i : Nat) : (ofSource source).token i ∈ scan source :=
  List.mem_of_getElem? (getElem?_scan_token source i)

theorem place_token_mono (source : String) {i k : Nat} (h : i ≤ k) :
    ((ofSource source).token i).place ≤ ((ofSource source).token k).place := by
  have hi := getElem?_scan_token source i
  have hk := getElem?_scan_token source k
  have hle : min i ((scan source).length - 1) ≤ min k ((scan source).length - 1) := by omega
  rcases Nat.eq_or_lt_of_le hle with heq | hlt
  · rw [heq, hk] at hi
    rw [Option.some_inj.mp hi]
  · obtain ⟨hi', hi⟩ := List.getElem?_eq_some_iff.mp hi
    obtain ⟨hk', hk⟩ := List.getElem?_eq_some_iff.mp hk
    rw [← hi, ← hk]
    exact (List.pairwise_iff_getElem.mp (scan_inOrder source) _ _ hi' hk' hlt).le

/-- A token that is not the end of the text stands at one position only. -/
theorem token_eq_iff {source : String} {t : Token} {i : Nat} (h : (scan source)[i]? = some t)
    (ht : t.kind ≠ .eof) (k : Nat) : (ofSource source).token k = t ↔ k = i := by
  obtain ⟨tokens, hscan, -⟩ := scan_eq source
  have hlast : (scan source)[(scan source).length - 1]? = some (endOfSource source) := by
    simp [hscan]
  have hi : i < (scan source).length := (List.getElem?_eq_some_iff.mp h).1
  have hne : i ≠ (scan source).length - 1 := by
    rintro rfl
    rw [hlast] at h
    exact ht (congrArg Token.kind (Option.some_inj.mp h)).symm
  have hk := getElem?_scan_token source k
  constructor
  · rintro rfl
    have hmin := (List.getElem?_inj hi (nodup_scan source)).mp (h.trans hk.symm)
    omega
  · rintro rfl
    rw [Nat.min_eq_left (by omega), h] at hk
    exact (Option.some_inj.mp hk).symm

end TokenStream

/-- Every mistake in a source text is about one of its tokens. -/
theorem token_mem_of_parse {source : String} {p : Parse} (h : parse source = .ok p) :
    ∀ d ∈ p.diagnostics, d.token ∈ scan source := by
  intro d hd
  obtain ⟨bound, hchronicle⟩ := Parser.exists_chronicle h
  have hd : d ∈ p.events.reverse.filterMap Parser.Event.diagnostic? := by
    rw [List.filterMap_reverse, List.mem_reverse]
    exact hd
  obtain ⟨i, -, hi⟩ := hchronicle.exists_index d hd
  rw [hi]
  exact TokenStream.token_mem_scan source i

/-- The records of the mistakes, without source and hints. -/
def Parse.records (p : Parse) : List Report.Record := p.diagnostics.map Report.Record.ofDiagnostic

/-- Where a record says that a mistake is, in reading order. -/
def Report.Record.place (r : Report.Record) : ℤ ×ₗ ℤ := toLex (r.line, r.column)

/-- The mistakes in a source text have a message and a record each.  A record has the position
    and the literal of a token of the text or of its end, and no record is before the one in
    front of it.  About a token that is not the end there are at most two mistakes: if two, then
    it did not fit as the next token, and the statement taken up at it right after could not
    start with it. -/
theorem parse_reports_inOrder {source : String} {p : Parse} (h : parse source = .ok p) :
    p.records.length = p.errors.length ∧ p.records.map Report.Record.message = p.errors ∧
      (∀ r ∈ p.records, ∃ t ∈ scan source,
        r.line = t.line ∧ r.column = t.column ∧ r.got = some t.literal) ∧
      (p.records.Pairwise fun r r' => r.place ≤ r'.place) ∧
      ∀ i t, (scan source)[i]? = some t → t.kind ≠ .eof →
        Parser.Told t i p.events (p.diagnostics.filter fun d => d.token = t) ∧
        (p.diagnostics.filter fun d => d.token = t).length ≤ 2 := by
  obtain ⟨bound, hchronicle⟩ := Parser.exists_chronicle h
  have hdiagnostics : (p.events.reverse.filterMap Parser.Event.diagnostic?).reverse =
      p.diagnostics := by
    rw [List.filterMap_reverse, List.reverse_reverse]
    rfl
  refine ⟨?_, ?_, ?_, ?_, ?_⟩
  · simp [Parse.records, Parse.errors]
  · simp [Parse.records, Parse.errors, Report.Record.ofDiagnostic]
  · intro r hr
    obtain ⟨d, hd, rfl⟩ := List.mem_map.mp hr
    exact ⟨d.token, token_mem_of_parse h d hd, rfl, rfl, rfl⟩
  · have horder := hchronicle.inOrder fun i k => TokenStream.place_token_mono source
    rw [← List.pairwise_reverse, hdiagnostics] at horder
    exact List.pairwise_map.mpr horder
  · intro i t hi ht
    have htold := hchronicle.told (TokenStream.token_eq_iff hi ht)
    rw [List.reverse_reverse, hdiagnostics] at htold
    exact ⟨htold, htold.length_le⟩

/-- The closing bracket is no name, and no statement starts with it. -/
theorem parse_reports_inOrder_bracket :
    ∃ p, parse "let ] let x" = .ok p ∧ (scan "let ] let x")[1]? = some ⟨.rbracket, "]", 1, 5⟩ ∧
      p.records.map Report.Record.message = p.errors ∧
      (p.records.Pairwise fun r r' => r.place ≤ r'.place) ∧
      Parser.Told ⟨.rbracket, "]", 1, 5⟩ 1 p.events [⟨.unexpected .ident, ⟨.rbracket, "]", 1, 5⟩⟩,
        ⟨.noExpression, ⟨.rbracket, "]", 1, 5⟩⟩] := by
  have hscan : (scan "let ] let x")[1]? = some ⟨.rbracket, "]", 1, 5⟩ := by decide
  have hfacts : (parse "let ] let x").map Parse.diagnostics =
      .ok [⟨.unexpected .ident, ⟨.rbracket, "]", 1, 5⟩⟩, ⟨.noExpression, ⟨.rbracket, "]", 1, 5⟩⟩,
        ⟨.unexpected .assign, ⟨.eof, "", 1, 12⟩⟩] := by decide
  obtain ⟨p, hp, hdiagnostics⟩ := exists_of_map_ok hfacts
  obtain ⟨-, hmessages, -, horder, htold⟩ := parse_reports_inOrder hp
  have hbracket := (htold 1 _ hscan (by decide)).1
  rw [hdiagnostics] at hbracket
  exact ⟨p, hp, hscan, hmessages, horder, hbracket⟩

end Monkey
