import Monkey.Proofs.Operator
import Monkey.Proofs.Parser.Overflow
import Monkey.Proofs.Script
import Monkey.Proofs.Value.Data
import Monkey.Proofs.Value.Pairing

/-!
# Data that is read back

Read as a program, the text that shows data comes to the data again, in new arrays and hashes.
Where the least integer occurs in data, its magnitude is reported as a literal that does not fit.
-/

namespace Monkey

namespace Value

variable {v : Value}

/-! ## Copies -/

/-- A value is the same as another but for tokens and the numbers of objects. -/
abbrev CopyOf (v w : Value) : Prop := w.strip.anonymous = v.anonymous

theorem isError_anonymous (v : Value) : v.anonymous.isError = v.isError := by
  cases v <;> rfl

theorem isReturned_anonymous (v : Value) : v.anonymous.isReturned = v.isReturned := by
  cases v <;> rfl

theorem isReturned_strip (v : Value) : v.strip.isReturned = v.isReturned := by
  cases v <;> rfl

theorem anonymousEntries_append (es fs : List (HashKey × (Value × Value))) :
    anonymousEntries (es ++ fs) = anonymousEntries es ++ anonymousEntries fs := by
  induction es with
  | nil => rfl
  | cons e es ih => rw [List.cons_append, anonymousEntries, anonymousEntries, ih, List.cons_append]

theorem stripEntries_append (es fs : List (HashKey × (Value × Value))) :
    stripEntries (es ++ fs) = stripEntries es ++ stripEntries fs := by
  rw [stripEntries_eq_map, stripEntries_eq_map, stripEntries_eq_map, List.map_append]

theorem IsScalar.copyOf_self (h : v.IsScalar) : v.CopyOf v := by
  cases h <;> rfl

theorem IsData.isError_of_copyOf (h : v.IsData) {w : Value} (hw : v.CopyOf w) :
    w.isError = false := by
  rw [← isError_strip w, ← isError_anonymous w.strip, hw]
  cases h with
  | scalar h => cases h <;> rfl
  | array | hash => rfl

theorem IsData.isReturned_of_copyOf (h : v.IsData) {w : Value} (hw : v.CopyOf w) :
    w.isReturned = false := by
  rw [← isReturned_strip w, ← isReturned_anonymous w.strip, hw]
  cases h with
  | scalar h => cases h <;> rfl
  | array | hash => rfl

/-- The copies of a value differ from it in the numbers of objects only. -/
def Tokenless (v : Value) : Prop := ∀ w, v.CopyOf w → w.anonymous = v.anonymous

theorem anonymousAll_of_strip {vs ws : List Value} (h : ∀ v ∈ vs, v.Tokenless)
    (hws : anonymousAll (stripAll ws) = anonymousAll vs) : anonymousAll ws = anonymousAll vs := by
  induction vs generalizing ws with
  | nil =>
    cases ws with
    | nil => rfl
    | cons => cases hws
  | cons v vs ih =>
    cases ws with
    | nil => cases hws
    | cons w ws =>
      rw [List.forall_mem_cons] at h
      rw [stripAll, anonymousAll, anonymousAll, List.cons.injEq] at hws
      rw [anonymousAll, anonymousAll, h.1 w hws.1, ih h.2 hws.2]

theorem anonymousEntries_of_strip {es fs : List (HashKey × (Value × Value))}
    (h : ∀ e ∈ es, e.2.1.Tokenless ∧ e.2.2.Tokenless)
    (hfs : anonymousEntries (stripEntries fs) = anonymousEntries es) :
    anonymousEntries fs = anonymousEntries es := by
  induction es generalizing fs with
  | nil =>
    cases fs with
    | nil => rfl
    | cons => cases hfs
  | cons e es ih =>
    cases fs with
    | nil => cases hfs
    | cons f fs =>
      rw [List.forall_mem_cons] at h
      rw [stripEntries, anonymousEntries, anonymousEntries, List.cons.injEq, Prod.mk.injEq,
        Prod.mk.injEq] at hfs
      obtain ⟨⟨hcode, hkey, hvalue⟩, hfs⟩ := hfs
      rw [anonymousEntries, anonymousEntries, hcode, h.1.1 _ hkey, h.1.2 _ hvalue, ih h.2 hfs]

theorem IsScalar.tokenless (h : v.IsScalar) : v.Tokenless := by
  intro w hw
  cases h <;> cases w <;> first | exact hw | cases hw

/-- No functions are in data, and so no tokens. -/
theorem IsData.tokenless (h : v.IsData) : v.Tokenless := by
  induction h with
  | scalar h => exact h.tokenless
  | array id _ ih =>
    intro w hw
    -- A copy is built by the same constructor, as neither function changes it.
    cases w with
    | array j ws => exact congrArg (Value.array 0) (anonymousAll_of_strip ih (Value.array.inj hw).2)
    | _ => cases hw
  | hash id _ hkeys _ ih =>
    intro w hw
    have hentries := fun e he => And.intro (hkeys e he).1.tokenless (ih e he)
    cases w with
    | hash j fs =>
      exact congrArg (Value.hash 0) (anonymousEntries_of_strip hentries (Value.hash.inj hw).2)
    | _ => cases hw

/-! ## Evaluation -/

variable (cx : EvalContext) (frame : FrameId)

theorem comesTo_literal_integer (n : Int64) :
    ComesTo (Eval.eval cx frame (integer n).literal) (· = integer n) := by
  have hmagnitude : ComesTo (Eval.eval cx frame (.integer n.toInt.natAbs none))
      (· = .ofInt n.toInt.natAbs) := by
    rw [Eval.eval]
    exact ComesTo.traced (.pure _ rfl)
  rw [literal]
  by_cases hneg : n.toInt < 0
  · rw [if_pos hneg, Eval.eval]
    have hvalue : -Int64.ofInt n.toInt.natAbs = n := by
      have habs : (n.toInt.natAbs : Int) = -n.toInt := by omega
      rw [habs, Int64.ofInt_neg, Int64.neg_neg, Int64.ofInt_toInt]
    refine ComesTo.traced (.bind hmagnitude ?_)
    rintro _ rfl
    rw [Value.ofInt_eq, Operator.applyPrefix_minus, hvalue]
    exact .pure _ rfl
  · rw [if_neg hneg]
    have hvalue : Int64.ofInt n.toInt.natAbs = n := by
      have habs : (n.toInt.natAbs : Int) = n.toInt := by omega
      rw [habs, Int64.ofInt_toInt]
    rw [Value.ofInt_eq, hvalue] at hmagnitude
    exact hmagnitude

theorem IsScalar.comesTo_literal (h : v.IsScalar) :
    ComesTo (Eval.eval cx frame v.literal) (· = v) := by
  cases h with
  | integer n => exact comesTo_literal_integer cx frame n
  | boolean b =>
    rw [literal, Eval.eval]
    exact ComesTo.traced (.pure _ rfl)

/-- Literals of data are evaluated one after the other. -/
theorem comesTo_literals {vs : List Value} (hvs : ∀ v ∈ vs, v.IsData)
    (h : ∀ v ∈ vs, ComesTo (Eval.eval cx frame v.literal) v.CopyOf) :
    ComesTo (Eval.evalAll cx frame (literals vs)) fun r =>
      ∃ ws, r = .ok ws ∧ anonymousAll (stripAll ws) = anonymousAll vs := by
  induction vs with
  | nil =>
    rw [literals, Eval.evalAll]
    exact .pure _ ⟨[], rfl, rfl⟩
  | cons v vs ih =>
    rw [List.forall_mem_cons] at hvs h
    rw [literals, Eval.evalAll]
    refine .bind h.1 fun w hw => ?_
    rw [hvs.1.isError_of_copyOf hw, if_neg Bool.false_ne_true]
    refine .bind (ih hvs.2 h.2) ?_
    rintro _ ⟨ws, rfl, hws⟩
    exact .pure _ ⟨w :: ws, rfl, by rw [stripAll, anonymousAll, anonymousAll, hw, hws]⟩

/-- A pair with a scalar key is put among the entries before the pairs that follow. -/
theorem comesTo_pair {key : Value} {code : HashKey} (hkey : key.IsScalar)
    (hcode : ∀ surrogate?, key.hashKey surrogate? = .ok code) {valueNode : Node}
    {post : Value → Prop}
    (hvalue : ComesTo (Eval.eval cx frame valueNode) post)
    (herror : ∀ value, post value → value.isError = false)
    {entries : Ordered HashKey (Value × Value)} {rest : List (Node × Node)}
    {done : Except Value (Ordered HashKey (Value × Value)) → Prop}
    (hrest : ∀ value, post value →
      ComesTo (Eval.evalPairs cx frame (entries.insert code (key, value)) rest) done) :
    ComesTo (Eval.evalPairs cx frame entries ((key.literal, valueNode) :: rest)) done := by
  rw [Eval.evalPairs]
  refine .bind (hkey.comesTo_literal cx frame) fun k hk => ?_
  subst k
  have hkeyOf : Operator.keyOf cx.surrogate? key = pure code := by
    rw [Operator.keyOf, hcode]
  have hscalar : key.isError = false ∧ key.isAbsent = false ∧ key.isHashable := by
    cases hkey <;> exact ⟨rfl, rfl, rfl⟩
  rw [hscalar.1, if_neg Bool.false_ne_true, Operator.demand, hscalar.2.1,
    if_neg Bool.false_ne_true, pure_bind, if_pos hscalar.2.2]
  refine .bind hvalue fun value hpost => ?_
  rw [herror value hpost, if_neg Bool.false_ne_true, hkeyOf, pure_bind]
  exact hrest value hpost

/-- Literals of entries are evaluated one after the other.  Their keys are all new, so each entry
    is put behind those before it. -/
theorem comesTo_literalPairs {es : List (HashKey × (Value × Value))}
    (hkeys : ∀ e ∈ es, e.2.1.IsScalar ∧ ∀ surrogate?, e.2.1.hashKey surrogate? = .ok e.1)
    (hes : ∀ e ∈ es, e.2.2.IsData)
    (h : ∀ e ∈ es, ComesTo (Eval.eval cx frame e.2.2.literal) e.2.2.CopyOf)
    (entries : List (HashKey × (Value × Value)))
    (hnodup : (Ordered.keys (entries ++ es)).Nodup) :
    ComesTo (Eval.evalPairs cx frame entries (literalPairs es)) fun r =>
      ∃ fs, r = .ok fs ∧ anonymousEntries (stripEntries fs) =
        anonymousEntries (stripEntries entries) ++ anonymousEntries es := by
  induction es generalizing entries with
  | nil =>
    rw [literalPairs, Eval.evalPairs]
    exact .pure _ ⟨entries, rfl, (List.append_nil _).symm⟩
  | cons e es ih =>
    obtain ⟨code, key, value⟩ := e
    rw [List.forall_mem_cons] at hkeys hes h
    rw [literalPairs]
    refine comesTo_pair cx frame hkeys.1.1 hkeys.1.2 h.1 (fun _ => hes.1.isError_of_copyOf) ?_
    intro w hw
    have hnew : code ∉ Ordered.keys entries := by
      unfold Ordered.keys at hnodup ⊢
      rw [List.map_append, List.nodup_append] at hnodup
      exact fun hmem => hnodup.2.2 code hmem code (.head _) rfl
    have hsame : Ordered.keys (entries ++ [(code, (key, w))] ++ es) =
        Ordered.keys (entries ++ (code, (key, value)) :: es) := by
      simp [Ordered.keys]
    rw [Ordered.insert_of_notMem hnew]
    refine (ih hkeys.2 hes.2 h.2 _ (hsame ▸ hnodup)).mono ?_
    rintro _ ⟨fs, rfl, hfs⟩
    have hkey : key.strip.anonymous = key.anonymous := hkeys.1.1.copyOf_self
    have hvalue : w.strip.anonymous = value.anonymous := hw
    refine ⟨fs, rfl, hfs.trans ?_⟩
    rw [stripEntries_append, anonymousEntries_append, List.append_assoc, stripEntries,
      stripEntries, anonymousEntries, anonymousEntries, anonymousEntries, hkey, hvalue,
      List.singleton_append]

theorem comesTo_newArray (vs : List Value) :
    ComesTo (Machine.newArray vs) (·.strip.anonymous = array 0 (anonymousAll (stripAll vs))) :=
  fun _ _ => ⟨trivial, rfl⟩

theorem comesTo_newHash (es : List (HashKey × (Value × Value))) :
    ComesTo (Machine.newHash es)
      (·.strip.anonymous = hash 0 (anonymousEntries (stripEntries es))) :=
  fun _ _ => ⟨trivial, rfl⟩

/-- In every context, the literal of data comes to a copy of the data. -/
theorem IsData.comesTo_literal (h : v.IsData) :
    ComesTo (Eval.eval cx frame v.literal) v.CopyOf := by
  induction h with
  | scalar h => exact (h.comesTo_literal cx frame).mono fun w hw => hw ▸ h.copyOf_self
  | @array id vs hvs ih =>
    rw [literal, Eval.eval]
    refine ComesTo.traced (.bind (comesTo_literals cx frame hvs ih) ?_)
    rintro _ ⟨ws, rfl, hws⟩
    unfold CopyOf
    rw [anonymous, ← hws]
    exact comesTo_newArray ws
  | @hash id es hnodup hkeys hes ih =>
    rw [literal, Eval.eval]
    refine ComesTo.traced (.bind (comesTo_literalPairs cx frame hkeys hes ih [] hnodup) ?_)
    rintro _ ⟨fs, rfl, hfs⟩
    rw [stripEntries, anonymousEntries, List.nil_append] at hfs
    unfold CopyOf
    rw [anonymous, ← hfs]
    exact comesTo_newHash fs

/-! ## Parsing -/

theorem IsData.wordsOf_scan_inspect (h : v.IsData) : wordsOf (scan v.inspect) = v.words := by
  have hshows := h.shows [] nofun
  rwa [List.append_nil, Scanner.wordsIn_nil, List.append_nil] at hshows

theorem IsData.parse_inspect (h : v.IsData) (hleast : v.WithoutLeast) :
    ∃ p, parse v.inspect = .ok p ∧ p.errors = [] ∧
      Node.stripAll p.statements = [.exprStatement v.literal none] := by
  have hwritten : Grammar.Written (.statements [.exprStatement v.literal none]) v.words :=
    .lastStatement (.exprStatement (.plain (h.written hleast) id))
  have hderives := hwritten.derived [] (.inl rfl)
  rw [List.append_nil, ← h.wordsOf_scan_inspect] at hderives
  exact @Parser.run_of_derives (.ofSource v.inspect) _ (eofLast_scan v.inspect) hderives

/-- The numerals among the words of data have few enough digits to be read. -/
theorem length_magnitude_le (n : Int64) : (magnitude n).literal.length ≤ Numeral.digitLimit := by
  have hsmall : n.toInt.natAbs < 10 ^ 19 := by
    have hleast := n.le_toInt
    have hgreatest := n.toInt_lt
    omega
  have hlength : (Nat.toDigits 10 n.toInt.natAbs).length ≤ 19 :=
    (Nat.length_toDigits_le_iff (by decide) (by decide)).mpr hsmall
  unfold magnitude
  rw [← String.length_toList, Nat.toList_repr]
  exact hlength.trans (by decide)

/-- Whatever integers occur in data, the text that shows it can be parsed. -/
theorem IsData.exists_parse_inspect (h : v.IsData) : ∃ p, parse v.inspect = .ok p := by
  cases hparse : parse v.inspect with
  | ok p => exact ⟨p, rfl⟩
  | error refusal =>
    obtain ⟨t, ht, hlong⟩ := exists_isLong_of_parse hparse
    rw [Token.isLong, Bool.and_eq_true, decide_eq_true_eq, decide_eq_true_eq] at hlong
    have hne : t.kind ≠ .eof := by
      rw [hlong.1]
      decide
    have hmem : t.word ∈ wordsOf (scan v.inspect) := mem_wordsOf_scan_iff.mpr ⟨t, ht, hne, rfl⟩
    rw [h.wordsOf_scan_inspect] at hmem
    obtain ⟨n, hn⟩ := h.exists_magnitude hmem hlong.1
    have hliteral : t.literal = (magnitude n).literal := congrArg Word.literal hn
    exact absurd (hliteral ▸ length_magnitude_le n) (Nat.not_le.mpr hlong.2)

theorem IsData.parse_inspect_least (h : v.IsData) (hleast : ¬ v.WithoutLeast) :
    ∃ p, parse v.inspect = .ok p ∧
      "could not parse \"9223372036854775808\" as integer" ∈ p.errors := by
  obtain ⟨p, hparse⟩ := h.exists_parse_inspect
  have hmem : magnitude Int64.minValue ∈ wordsOf (scan v.inspect) := by
    rw [h.wordsOf_scan_inspect]
    exact Decidable.not_not.mp (mt h.withoutLeast hleast)
  obtain ⟨t, ht, -, hword⟩ := mem_wordsOf_scan_iff.mp hmem
  have hkind : t.kind = .int := congrArg Word.kind hword
  have hliteral : t.literal = "9223372036854775808" := congrArg Word.literal hword
  have hexceeds : t.exceeds = true := by
    rw [Token.exceeds, hkind, hliteral]
    decide
  have hmessage := mem_errors_of_exceeds hparse ht hexceeds
  rw [hliteral] at hmessage
  exact ⟨p, hparse, hmessage⟩

end Value

/-! ## Running -/

/-- The text that shows data without the least integer is parsed without mistakes, and comes to
    the data again in every session: to the same integers and booleans, in arrays and hashes with
    the same elements and pairs in the same order.  Where the least integer occurs in data, its
    magnitude is reported as an integer literal that does not fit, and the text is not run. -/
theorem run_inspect (s : Session) {v : Value} (h : v.IsData) :
    (v.WithoutLeast → ∃ p answer t w, parse v.inspect = .ok p ∧ p.errors = [] ∧
      s.run v.inspect = .ok (answer, t) ∧ answer.outcome = .finished w ∧
      w.anonymous = v.anonymous) ∧
    (¬ v.WithoutLeast → ∃ p answer, parse v.inspect = .ok p ∧
      "could not parse \"9223372036854775808\" as integer" ∈ p.errors ∧
      s.run v.inspect = .ok (answer, s) ∧ answer.outcome = .rejected p.errors) := by
  constructor
  · intro hleast
    obtain ⟨p, hparse, herrors, hstrip⟩ := h.parse_inspect hleast
    have hbare : Node.stripAll p.statements = Node.stripAll [.exprStatement v.literal none] := by
      rw [hstrip, Node.stripAll, Node.strip, v.strip_literal, Node.stripAll]
    have hcopy (w w' : Value) (hww' : w.strip = w'.strip) (hw : v.CopyOf w) : v.CopyOf w' := by
      unfold Value.CopyOf
      rw [← hww']
      exact hw
    obtain ⟨w, hw, hsame⟩ := s.evaluate_expression hbare h.comesTo_literal
      (fun _ => h.isReturned_of_copyOf) hcopy
    exact ⟨p, _, _, w, hparse, herrors, s.run_of_errors_eq_nil hparse herrors, hw,
      h.tokenless w hsame⟩
  · intro hleast
    obtain ⟨p, hparse, hmessage⟩ := h.parse_inspect_least hleast
    have hne : ¬ p.diagnostics.isEmpty := by
      intro hempty
      have herrors : p.errors = [] := List.map_eq_nil_iff.mpr (List.isEmpty_iff.mp hempty)
      rw [herrors] at hmessage
      cases hmessage
    have hrun := s.run_eq hparse
    rw [if_neg hne] at hrun
    exact ⟨p, _, hparse, hmessage, hrun, rfl⟩

/-- The integers next to the bounds are read back in their places, from a hash in an array too.
    The least integer is not, from an array that holds only it. -/
theorem run_inspect_nested :
    let s := Session.start { callLimit := 100 }
    let v := Value.hash 7 [(⟨.integer, (-7 : Int64).toUInt64⟩, (.integer (-7),
        .array 5 [.integer (-9223372036854775807), .array 2 [], .hash 3 []])),
      (⟨.boolean, 1⟩, (.boolean true, .integer 9223372036854775807))]
    let least := Value.array 1 [.integer (-9223372036854775808)]
    (v.IsData ∧ v.WithoutLeast ∧
      v.inspect = "\x7b-7: [-9223372036854775807, [], \x7b\x7d], true: 9223372036854775807\x7d" ∧
      ∃ p answer t w, parse v.inspect = .ok p ∧ p.errors = [] ∧
        s.run v.inspect = .ok (answer, t) ∧ answer.outcome = .finished w ∧
        w.anonymous = v.anonymous) ∧
    least.IsData ∧ ¬ least.WithoutLeast ∧ least.inspect = "[-9223372036854775808]" ∧
      ∃ p answer, parse least.inspect = .ok p ∧
        "could not parse \"9223372036854775808\" as integer" ∈ p.errors ∧
        s.run least.inspect = .ok (answer, s) ∧ answer.outcome = .rejected p.errors := by
  intro s v least
  have integer (n : Int64) : (Value.integer n).IsData := .scalar (.integer n)
  have other {n : Int64} (h : n ≠ Int64.minValue) : (Value.integer n).WithoutLeast :=
    .plain rfl fun heq => h (Value.integer.inj heq)
  have hv : v.IsData := by
    refine .hash 7 (by decide) ?_ ?_
    · simp only [List.forall_mem_cons]
      exact ⟨⟨.integer _, fun _ => rfl⟩, ⟨.boolean _, fun _ => rfl⟩, nofun⟩
    · simp only [List.forall_mem_cons]
      refine ⟨.array 5 ?_, integer _, nofun⟩
      simp only [List.forall_mem_cons]
      exact ⟨integer _, .array 2 nofun, .hash 3 .nil nofun nofun, nofun⟩
  have hvLeast : v.WithoutLeast := by
    refine .hash nofun ?_ ?_
    · simp only [List.forall_mem_cons]
      exact ⟨other (by decide), .plain rfl nofun, nofun⟩
    · simp only [List.forall_mem_cons]
      refine ⟨.array nofun ?_, other (by decide), nofun⟩
      simp only [List.forall_mem_cons]
      exact ⟨other (by decide), .array nofun nofun, .hash nofun nofun nofun, nofun⟩
  have hleast : least.IsData := .array 1 (List.forall_mem_singleton.mpr (integer _))
  have hoccurs : ¬ least.WithoutLeast := fun h => (h.elements _ (.head _)).here rfl
  exact ⟨⟨hv, hvLeast, by decide, (run_inspect s hv).1 hvLeast⟩, hleast, hoccurs, by decide,
    (run_inspect s hleast).2 hoccurs⟩

/-- The least integer is shown as a text that is not parsed without mistakes. -/
theorem inspect_least_refused :
    let v := Value.integer (-9223372036854775808)
    v.IsData ∧ v.inspect = "-9223372036854775808" ∧
      (∃ p, parse v.inspect = .ok p ∧
        p.errors = ["could not parse \"9223372036854775808\" as integer"]) ∧
      ¬ ∃ p, parse v.inspect = .ok p ∧ p.errors = [] := by
  intro v
  have hinspect : v.inspect = "-9223372036854775808" := by decide
  obtain ⟨p, hparse, herrors⟩ : ∃ p, parse "-9223372036854775808" = .ok p ∧
      p.errors = ["could not parse \"9223372036854775808\" as integer"] := ⟨_, rfl, by decide⟩
  refine ⟨.scalar (.integer _), hinspect, ⟨p, hinspect ▸ hparse, herrors⟩, ?_⟩
  rintro ⟨q, hq, hnone⟩
  rw [hinspect, hparse] at hq
  cases hq
  rw [herrors] at hnone
  cases hnone

end Monkey
