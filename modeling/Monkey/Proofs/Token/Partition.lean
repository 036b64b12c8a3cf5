import Mathlib.Data.List.Induction
import Monkey.Proofs.Token.Pattern
import Monkey.Proofs.Token.Seam

/-!
# The scanner partitions the source

A source text is cut into tokens and gaps.  Each token has a span of the text, at whose start
the pattern table matches first and which is that match; what is between the spans is white
space and whole comments.  There is one such partition of a text, and the scanner computes it.
-/

namespace Monkey

namespace Scanner

/-- The line of the character after a text: one more than the line feeds in it. -/
def lineAfter (cs : List Char) : Nat := cs.count '\n' + 1

/-- The column of the character after a text: one more than the characters after the last line
    feed in it. -/
def columnAfter (cs : List Char) : Nat := (cs.reverse.takeWhile (· ≠ '\n')).length + 1

/-- White space and whole comments, in front of a text.  A comment is whole if nothing longer
    is a comment, also not with what follows it. -/
inductive IsGap : List Char → List Char → Prop
  | nil {rest : List Char} : IsGap [] rest
  | blank {c : Char} {gap rest : List Char} : Text.isBlank c → IsGap gap rest →
      IsGap (c :: gap) rest
  | comment {comment gap rest : List Char} :
      LongestPrefix IsComment (comment ++ (gap ++ rest)) comment → IsGap gap rest →
      IsGap (comment ++ gap) rest

/-- A stretch of a text: the numbers of its first character and of the character after its
    last. -/
structure Span where
  start : Nat
  stop : Nat

/-- A stretch of a text is the span of a token: it is not empty, no comment starts where it
    starts, it is the first match of the pattern table there, and the token has what is read
    off the match and the position of the start. -/
structure IsToken (text : List Char) (s : Span) (t : Token) : Prop where
  nonempty : s.start < s.stop
  within : s.stop ≤ text.length
  noComment : ∀ n, n <+: text.drop s.start → ¬ IsComment n
  matched : ∃ pattern,
    FirstMatch (text.drop s.start) patterns pattern (text.extract s.start s.stop) ∧
      pattern.Yields (text.extract s.start s.stop) t.kind t.literal.toList
  line : t.line = lineAfter (text.take s.start)
  column : t.column = columnAfter (text.take s.start)

/-- From a character on, a text is cut into gaps and the spans of tokens, in order. -/
def Partitions (text : List Char) : Nat → List (Span × Token) → Prop
  | i, [] => IsGap (text.drop i) []
  | i, (s, t) :: rest =>
    i ≤ s.start ∧ IsGap (text.extract i s.start) (text.drop s.start) ∧ IsToken text s t ∧
      Partitions text s.stop rest

/-! ## Positions -/

theorem after_eq (cs : List Char) :
    Position.start.after cs = ⟨lineAfter cs, columnAfter cs⟩ := by
  induction cs using List.reverseRecOn with
  | nil => rfl
  | append_singleton cs c ih =>
    rw [Position.after_append, ih, Position.after_cons, Position.after_nil, Position.next]
    unfold lineAfter columnAfter
    rw [List.count_append, List.reverse_append, List.reverse_singleton, List.singleton_append]
    by_cases hc : c = '\n'
    · subst hc
      simp
    · rw [if_neg hc]
      simp [hc]

/-! ## Gaps -/

theorem CommentBody.head?_ne {cs : List Char} (h : CommentBody cs) : cs.head? ≠ some '\n' := by
  cases h with
  | nil => exact nofun
  | continued => exact fun h => absurd (Option.some.inj h) (by decide)
  | char hline => exact fun h => hline (Option.some.inj h)

theorem isBlank_of_isSpace {c : Char} (h : isSpace c) : Text.isBlank c := by
  simp only [isSpace, Bool.or_eq_true, beq_iff_eq] at h
  rcases h with ((rfl | rfl) | rfl) | rfl <;> rfl

theorem LongestPrefix.comment {cs body : List Char} (h : LongestPrefix CommentBody cs body) :
    LongestPrefix IsComment ('/' :: '/' :: cs) ('/' :: '/' :: body) := by
  refine ⟨?_, ⟨body, rfl, h.accepted⟩, ?_⟩
  · exact List.cons_prefix_cons.mpr ⟨rfl, List.cons_prefix_cons.mpr ⟨rfl, h.starts⟩⟩
  · rintro _ hn ⟨other, rfl, hother⟩
    have hoperator := (List.cons_prefix_cons.mp (List.cons_prefix_cons.mp hn).2).2
    exact Nat.succ_le_succ (Nat.succ_le_succ (h.longest other hoperator hother))

/-- What follows the two slashes of a comment is skipped up to its end, and on from there. -/
theorem exists_commentBody : (cs : List Char) →
    ∃ body back, cs = body ++ back ∧ LongestPrefix CommentBody cs body ∧
      triviaLength true cs = body.length + triviaLength false back
  | [] => ⟨[], [], rfl, ⟨List.nil_prefix, .nil, fun _ hn _ => hn.length_le⟩, rfl⟩
  | c :: rest => by
    by_cases hcontinued : c = '\\' ∧ rest.head? = some '\n'
    · obtain ⟨rfl, hhead⟩ := hcontinued
      obtain ⟨more, rfl⟩ := List.head?_eq_some_iff.mp hhead
      obtain ⟨body, back, rfl, hbody, hlength⟩ := exists_commentBody more
      refine ⟨'\\' :: '\n' :: body, back, rfl, ⟨⟨back, rfl⟩, .continued hbody.accepted, ?_⟩, ?_⟩
      · intro n hn haccepted
        cases haccepted with
        | nil => exact Nat.zero_le _
        | continued h =>
          have htail := (List.cons_prefix_cons.mp (List.cons_prefix_cons.mp hn).2).2
          exact Nat.succ_le_succ (Nat.succ_le_succ (hbody.longest _ htail h))
        | @char _ tail _ h =>
          -- A backslash alone: behind it would stand the line feed.
          cases tail with
          | nil => exact Nat.succ_le_succ (Nat.zero_le _)
          | cons d tail =>
            obtain ⟨rfl, -⟩ := List.cons_prefix_cons.mp (List.cons_prefix_cons.mp hn).2
            exact absurd rfl h.head?_ne
      · rw [triviaLength, hlength, List.length_cons, List.length_cons]
        omega
    rw [triviaLength_comment hcontinued]
    by_cases hline : c = '\n'
    · subst hline
      refine ⟨[], '\n' :: rest, rfl, ⟨List.nil_prefix, .nil, ?_⟩, ?_⟩
      · intro n hn haccepted
        cases n with
        | nil => exact Nat.le_refl _
        | cons d tail =>
          obtain ⟨rfl, -⟩ := List.cons_prefix_cons.mp hn
          exact absurd rfl haccepted.head?_ne
      · rw [triviaLength_plain (by simp), List.length_nil, Nat.zero_add]
        rfl
    · obtain ⟨body, back, rfl, hbody, hlength⟩ := exists_commentBody rest
      refine ⟨c :: body, back, rfl, ⟨⟨back, rfl⟩, .char hline hbody.accepted, ?_⟩, ?_⟩
      · intro n hn haccepted
        cases haccepted with
        | nil => exact Nat.zero_le _
        | continued h =>
          obtain ⟨rfl, htail⟩ := List.cons_prefix_cons.mp hn
          obtain ⟨after, hafter⟩ := htail
          exact absurd ⟨rfl, by rw [← hafter]; rfl⟩ hcontinued
        | char _ h =>
          exact Nat.succ_le_succ (hbody.longest _ (List.cons_prefix_cons.mp hn).2 h)
      · simp only [hline, ne_eq, not_false_eq_true, decide_true, hlength, List.length_cons]
        omega

/-- What the scanner skips is a gap. -/
theorem exists_gap (cs : List Char) :
    ∃ front back, cs = front ++ back ∧ front.length = triviaLength false cs ∧
      ∀ gap rest, back = gap ++ rest → IsGap gap rest → IsGap (front ++ gap) rest := by
  induction hlength : cs.length using Nat.strong_induction_on generalizing cs with
  | _ length ih =>
  cases cs with
  | nil => exact ⟨[], [], rfl, rfl, fun _ _ _ h => h⟩
  | cons c rest =>
    by_cases hcomment : c = '/' ∧ rest.head? = some '/'
    · obtain ⟨rfl, hhead⟩ := hcomment
      obtain ⟨more, rfl⟩ := List.head?_eq_some_iff.mp hhead
      obtain ⟨body, after, rfl, hbody, hskipped⟩ := exists_commentBody more
      have hshorter : after.length < length := by
        rw [← hlength]
        simp
        omega
      obtain ⟨front, back, rfl, hfront, hgap⟩ := ih after.length hshorter after rfl
      refine ⟨'/' :: '/' :: (body ++ front), back, by simp, ?_, ?_⟩
      · rw [triviaLength, hskipped, ← hfront]
        simp
      · rintro gap rest rfl h
        have hlongest := hbody.comment
        have hrest := hgap gap rest rfl h
        have hwhole : LongestPrefix IsComment
            ('/' :: '/' :: body ++ ((front ++ gap) ++ rest)) ('/' :: '/' :: body) := by
          simpa using hlongest
        simpa using IsGap.comment hwhole hrest
    rw [triviaLength_plain hcomment]
    by_cases hspace : isSpace c
    · have hshorter : rest.length < length := by
        rw [← hlength]
        exact Nat.lt_succ_self _
      obtain ⟨front, back, rfl, hfront, hgap⟩ := ih rest.length hshorter rest rfl
      refine ⟨c :: front, back, rfl, ?_, fun gap rest hback h => ?_⟩
      · rw [if_pos hspace, List.length_cons, hfront]
      · exact .blank (isBlank_of_isSpace hspace) (hgap gap rest hback h)
    · exact ⟨[], c :: rest, rfl, (if_neg hspace).symm, fun _ _ _ h => h⟩

/-! ## The scanner's partition -/

variable {text : List Char}

theorem extract_append_drop {i j : Nat} (h : i ≤ j) :
    text.extract i j ++ text.drop j = text.drop i := by
  rw [List.extract_eq_take_drop]
  have hj : text.drop j = (text.drop i).drop (j - i) := by
    rw [List.drop_drop, Nat.add_sub_cancel' h]
  rw [hj, List.take_append_drop]

theorem extract_append_extract {i j k : Nat} (hij : i ≤ j) (hjk : j ≤ k) :
    text.extract i j ++ text.extract j k = text.extract i k := by
  have hcancel {front front' : List Char} (h : front ++ text.drop k = front' ++ text.drop k) :
      front = front' := List.append_cancel_right h
  apply hcancel
  rw [List.append_assoc, extract_append_drop hjk, extract_append_drop hij,
    extract_append_drop (hij.trans hjk)]

theorem extract_of_starts {i : Nat} {m : List Char} (h : m <+: text.drop i) :
    text.extract i (i + m.length) = m := by
  rw [List.extract_eq_take_drop, Nat.add_sub_cancel_left]
  exact (List.prefix_iff_eq_take.mp h).symm

/-- A gap in front of a partition goes to its first gap. -/
theorem Partitions.prepend {i j : Nat} {spanned : List (Span × Token)} (hij : i ≤ j)
    (hgap : ∀ gap rest, text.drop j = gap ++ rest → IsGap gap rest →
      IsGap (text.extract i j ++ gap) rest)
    (h : Partitions text j spanned) : Partitions text i spanned := by
  cases spanned with
  | nil =>
    have hend := hgap _ [] (List.append_nil _).symm h
    rwa [extract_append_drop hij] at hend
  | cons first rest =>
    obtain ⟨s, t⟩ := first
    obtain ⟨hstart, hfirst, htoken, hrest⟩ := h
    refine ⟨hij.trans hstart, ?_, htoken, hrest⟩
    rw [← extract_append_extract hij hstart]
    exact hgap _ _ (extract_append_drop hstart).symm hfirst

/-- Characters that have been read already. -/
theorem scanFrom_drop {i k : Nat} (h : i + k ≤ text.length) :
    scanFrom k (Position.start.after (text.take i)) (text.drop i) =
      scanFrom 0 (Position.start.after (text.take (i + k))) (text.drop (i + k)) := by
  have hlength : ((text.drop i).take k).length = k := by
    rw [List.length_take, List.length_drop]
    omega
  have hread := scanFrom_append ((text.drop i).take k) ((text.drop i).drop k) 0
    (Position.start.after (text.take i))
  rw [Nat.add_zero, hlength, List.take_append_drop] at hread
  rw [hread, List.take_add, Position.after_append, List.drop_drop]

theorem not_isComment_of_triviaLength {cs : List Char} (h : triviaLength false cs = 0) :
    ∀ n, n <+: cs → ¬ IsComment n := by
  rintro n ⟨after, rfl⟩ ⟨body, rfl, -⟩
  cases h

/-- The token of a match at a character that starts no comment. -/
theorem isToken_tokenAt {i : Nat} {c : Char} {rest m literal : List Char} {pattern : Pattern}
    {kind : Kind} (hi : i ≤ text.length) (hdrop : text.drop i = c :: rest)
    (htrivia : triviaLength false (c :: rest) = 0)
    (hmatch : FirstMatch (c :: rest) patterns pattern m) (hyields : pattern.Yields m kind literal) :
    IsToken text ⟨i, i + m.length⟩ (tokenAt (Position.start.after (text.take i)) kind literal) := by
  rw [← hdrop] at htrivia hmatch
  have hm := hmatch.longest.starts
  obtain ⟨_, _, hcons, -⟩ := hmatch.exists_cons
  have hle := hm.length_le
  rw [List.length_drop] at hle
  have hextract := extract_of_starts hm
  refine ⟨?_, ?_, not_isComment_of_triviaLength htrivia, ⟨pattern, ?_, ?_⟩, ?_, ?_⟩
  · simp [hcons]
  · show i + m.length ≤ text.length
    omega
  · rw [hextract]
    exact hmatch
  · rw [hextract]
    show pattern.Yields m kind (String.ofList literal).toList
    rwa [String.toList_ofList]
  · rw [after_eq]
    rfl
  · rw [after_eq]
    rfl

/-- From every character on, the tokens that are scanned have spans that partition the text. -/
theorem exists_partition (text : List Char) (i : Nat) (hi : i ≤ text.length) :
    ∃ spanned, scanFrom 0 (Position.start.after (text.take i)) (text.drop i) =
        spanned.map Prod.snd ++ [tokenAt (Position.start.after text) .eof []] ∧
      Partitions text i spanned := by
  induction hremaining : text.length - i using Nat.strong_induction_on generalizing i with
  | _ remaining ih =>
  cases hdrop : text.drop i with
  | nil =>
    have htake : text.take i = text := List.take_of_length_le (List.drop_eq_nil_iff.mp hdrop)
    refine ⟨[], by rw [htake]; rfl, ?_⟩
    show IsGap (text.drop i) []
    rw [hdrop]
    exact .nil
  | cons c rest =>
    have hlength : rest.length + 1 = text.length - i := by
      rw [← List.length_drop, hdrop, List.length_cons]
    -- What is read in front is skipped, and the rest is partitioned by induction.
    have hskip (front back : List Char) (hsplit : c :: rest = front ++ back)
        (hne : front ≠ [])
        (hgap : ∀ gap rest, back = gap ++ rest → IsGap gap rest → IsGap (front ++ gap) rest) :
        ∃ spanned, scanFrom front.length (Position.start.after (text.take i)) (c :: rest) =
            spanned.map Prod.snd ++ [tokenAt (Position.start.after text) .eof []] ∧
          Partitions text i spanned := by
      have hpos := List.length_pos_iff.mpr hne
      have hle : front.length ≤ rest.length + 1 := by
        rw [← List.length_cons (a := c), hsplit, List.length_append]
        exact Nat.le_add_right _ _
      obtain ⟨spanned, hscan, hpartition⟩ := ih _ (by omega) (i + front.length) (by omega) rfl
      refine ⟨spanned, ?_, hpartition.prepend (Nat.le_add_right _ _) fun gap rest hback h => ?_⟩
      · rw [← hdrop, scanFrom_drop (by omega), hscan]
      · rw [extract_of_starts (by rw [hdrop, hsplit]; exact List.prefix_append _ _)]
        refine hgap gap rest ?_ h
        rw [← hback, ← List.drop_drop, hdrop, hsplit, List.drop_left]
    by_cases htrivia : triviaLength false (c :: rest) = 0
    · cases hl : lexeme? c rest with
      | some l =>
        obtain ⟨pattern, m, hmatch, hmore, hyields⟩ := lexeme?_firstMatch hl
        have htoken := isToken_tokenAt (by omega) hdrop htrivia hmatch hyields
        have hstop := htoken.within
        simp only [hmore] at htoken hstop
        obtain ⟨spanned, hscan, hpartition⟩ := ih _ (by omega) (i + (l.more + 1)) hstop rfl
        refine ⟨(⟨i, i + (l.more + 1)⟩, _) :: spanned, ?_, Nat.le_refl _, ?_, htoken, hpartition⟩
        · rw [scanFrom_of_lexeme _ htrivia hl, List.map_cons, List.cons_append, ← hscan,
            ← scanFrom_drop hstop, hdrop]
          rfl
        · rw [List.extract_eq_take_drop, Nat.sub_self]
          exact .nil
      | none =>
        rw [scanFrom_of_none _ htrivia hl]
        exact hskip [c] rest rfl (List.cons_ne_nil _ _) fun gap rest _ h =>
          .blank (isBlank_of_lexeme?_eq_none hl) h
    · obtain ⟨front, back, hsplit, hfront, hgap⟩ := exists_gap (c :: rest)
      rw [← scanFrom_trivia, ← hfront]
      refine hskip front back hsplit ?_ hgap
      rintro rfl
      exact htrivia hfront.symm

/-! ## There is one partition -/

/-- A text in front of which no gap goes on. -/
def Stops (cs : List Char) : Prop :=
  (∀ c ∈ cs.head?, Text.isBlank c = false) ∧ ∀ n, n <+: cs → ¬ IsComment n

theorem stops_nil : Stops [] := by
  refine ⟨nofun, ?_⟩
  rintro n hn ⟨body, rfl, -⟩
  cases List.prefix_nil.mp hn

theorem LongestPrefix.not_stops {comment cs : List Char}
    (h : LongestPrefix IsComment cs comment) : ¬ Stops cs :=
  fun hstops => hstops.2 comment h.starts h.accepted

theorem IsComment.head?_eq {comment : List Char} (h : IsComment comment) (cs : List Char) :
    (comment ++ cs).head? = some '/' := by
  obtain ⟨body, rfl, -⟩ := h
  rfl

/-- A gap ends where no gap goes on. -/
theorem IsGap.unique {gap rest gap' rest' : List Char} (h : IsGap gap rest)
    (h' : IsGap gap' rest') (heq : gap ++ rest = gap' ++ rest') (hrest : Stops rest)
    (hrest' : Stops rest') : gap = gap' := by
  induction h generalizing gap' rest' with
  | nil =>
    cases h' with
    | nil => rfl
    | blank hc _ =>
      rw [List.nil_append] at heq
      rw [heq] at hrest
      exact absurd hc (by rw [hrest.1 _ rfl]; decide)
    | comment hcomment _ =>
      rw [List.nil_append, List.append_assoc] at heq
      exact absurd (heq ▸ hrest) hcomment.not_stops
  | @blank c gap rest hc _ ih =>
    cases h' with
    | nil =>
      rw [List.nil_append] at heq
      rw [← heq] at hrest'
      exact absurd hc (by rw [hrest'.1 _ rfl]; decide)
    | blank _ h' =>
      obtain ⟨rfl, htail⟩ := List.cons.inj heq
      rw [ih h' htail hrest hrest']
    | comment hcomment _ =>
      have hhead := congrArg List.head? heq
      rw [List.append_assoc, hcomment.accepted.head?_eq] at hhead
      cases hhead
      cases hc
  | comment hcomment _ ih =>
    rw [List.append_assoc] at heq
    cases h' with
    | nil =>
      rw [List.nil_append] at heq
      exact absurd (heq ▸ hrest') hcomment.not_stops
    | blank hc _ =>
      have hhead := congrArg List.head? heq
      rw [hcomment.accepted.head?_eq] at hhead
      cases hhead
      cases hc
    | comment hcomment' h' =>
      rw [List.append_assoc] at heq
      rw [← heq] at hcomment'
      obtain rfl := hcomment.unique hcomment'
      rw [ih h' (List.append_cancel_left heq) hrest hrest']

namespace IsToken

variable {s s' : Span} {t t' : Token}

theorem stops (h : IsToken text s t) : Stops (text.drop s.start) := by
  refine ⟨fun c hc => ?_, h.noComment⟩
  obtain ⟨pattern, hmatch, -⟩ := h.matched
  obtain ⟨d, more, hcons, hd⟩ := hmatch.exists_cons
  obtain ⟨after, hafter⟩ := hmatch.longest.starts
  rw [← hafter, hcons] at hc
  cases hc
  exact hd

theorem length_extract (h : IsToken text s t) :
    (text.extract s.start s.stop).length = s.stop - s.start := by
  have hstop := h.within
  rw [List.extract_eq_take_drop, List.length_take, List.length_drop]
  omega

/-- A token and the end of its span are determined by the start. -/
theorem unique (h : IsToken text s t) (h' : IsToken text s' t') (hstart : s.start = s'.start) :
    s = s' ∧ t = t' := by
  obtain ⟨start, stop⟩ := s
  obtain ⟨start', stop'⟩ := s'
  obtain rfl : start = start' := hstart
  have hlength := h.length_extract
  have hlength' := h'.length_extract
  have hnonempty := h.nonempty
  have hnonempty' := h'.nonempty
  obtain ⟨pattern, hmatch, hyields⟩ := h.matched
  obtain ⟨pattern', hmatch', hyields'⟩ := h'.matched
  obtain ⟨rfl, hm⟩ := hmatch.unique hmatch'
  rw [← hm] at hyields' hlength'
  obtain ⟨hkind, hliteral⟩ := hyields.unique hyields'
  have hstop : stop = stop' := by
    simp only at hlength hlength' hnonempty hnonempty'
    omega
  refine ⟨by rw [hstop], ?_⟩
  have hline := h.line.trans h'.line.symm
  have hcolumn := h.column.trans h'.column.symm
  obtain ⟨kind, literal, line, column⟩ := t
  obtain ⟨kind', literal', line', column'⟩ := t'
  simp only [Token.mk.injEq]
  exact ⟨hkind, String.toList_inj.mp hliteral, hline, hcolumn⟩

end IsToken

/-- The first span begins where the gap ends. -/
theorem start_unique {i : Nat} {s s' : Span} {t t' : Token} (hi : i ≤ s.start)
    (hi' : i ≤ s'.start) (hgap : IsGap (text.extract i s.start) (text.drop s.start))
    (hgap' : IsGap (text.extract i s'.start) (text.drop s'.start)) (h : IsToken text s t)
    (h' : IsToken text s' t') : s.start = s'.start := by
  have heq := hgap.unique hgap'
    ((extract_append_drop hi).trans (extract_append_drop hi').symm) h.stops h'.stops
  have hlength := congrArg List.length heq
  have hwithin := h.within
  have hwithin' := h'.within
  have hnonempty := h.nonempty
  have hnonempty' := h'.nonempty
  rw [List.extract_eq_take_drop, List.extract_eq_take_drop, List.length_take, List.length_take,
    List.length_drop] at hlength
  omega

/-- Where a token begins, the text does not end with a gap. -/
theorem not_isGap_of_isToken {i : Nat} {s : Span} {t : Token} (hi : i ≤ s.start)
    (hgap : IsGap (text.extract i s.start) (text.drop s.start)) (h : IsToken text s t) :
    ¬ IsGap (text.drop i) [] := by
  intro hend
  have heq := hgap.unique hend
    ((extract_append_drop hi).trans (List.append_nil _).symm) h.stops stops_nil
  have hsplit : text.extract i s.start ++ text.drop s.start = text.drop i := extract_append_drop hi
  rw [heq] at hsplit
  have hnil := List.append_right_eq_self.mp hsplit
  have hwithin := h.within
  have hnonempty := h.nonempty
  have hlength := List.drop_eq_nil_iff.mp hnil
  omega

/-- A text has one partition. -/
theorem Partitions.unique {i : Nat} {spanned spanned' : List (Span × Token)}
    (h : Partitions text i spanned) (h' : Partitions text i spanned') : spanned = spanned' := by
  induction spanned generalizing i spanned' with
  | nil =>
    cases spanned' with
    | nil => rfl
    | cons first rest =>
      obtain ⟨hi, hgap, htoken, -⟩ := h'
      exact absurd h (not_isGap_of_isToken hi hgap htoken)
  | cons first rest ih =>
    obtain ⟨s, t⟩ := first
    obtain ⟨hi, hgap, htoken, hrest⟩ := h
    cases spanned' with
    | nil => exact absurd h' (not_isGap_of_isToken hi hgap htoken)
    | cons first' rest' =>
      obtain ⟨s', t'⟩ := first'
      obtain ⟨hi', hgap', htoken', hrest'⟩ := h'
      obtain ⟨rfl, rfl⟩ := htoken.unique htoken' (start_unique hi hi' hgap hgap' htoken htoken')
      rw [ih hrest hrest']

theorem Partitions.le_start {i : Nat} {spanned : List (Span × Token)}
    (h : Partitions text i spanned) : ∀ st ∈ spanned, i ≤ st.1.start := by
  induction spanned generalizing i with
  | nil => exact List.forall_mem_nil _
  | cons first rest ih =>
    obtain ⟨hi, -, htoken, hrest⟩ := h
    refine List.forall_mem_cons.mpr ⟨hi, fun st hst => ?_⟩
    have hnonempty := htoken.nonempty
    have hafter := ih hrest st hst
    omega

/-- The spans of a partition are disjoint and in order. -/
theorem Partitions.ordered {i : Nat} {spanned : List (Span × Token)}
    (h : Partitions text i spanned) :
    spanned.Pairwise fun st st' => st.1.stop ≤ st'.1.start := by
  induction spanned generalizing i with
  | nil => exact .nil
  | cons first rest ih =>
    obtain ⟨-, -, -, hrest⟩ := h
    exact .cons hrest.le_start (ih hrest)

end Scanner

open Scanner

/-- Drawing gives the tokens of a source text one after another, and past the last its end
    again and again. -/
theorem draw_getElem? (source : String) {count i : Nat} (h : i < count) :
    (draw source count)[i]? = some (((scan source)[i]?).getD (endOfSource source)) := by
  unfold draw
  by_cases hi : i < (scan source).length
  · rw [List.getElem?_append_left (by rw [List.length_take]; omega), List.getElem?_take_of_lt h,
      List.getElem?_eq_getElem hi]
    rfl
  · have hlength : ((scan source).take count).length = (scan source).length := by
      rw [List.length_take]
      omega
    rw [List.getElem?_append_right (by omega), hlength, List.getElem?_replicate_of_lt (by omega),
      List.getElem?_eq_none (Nat.not_lt.mp hi)]
    rfl

/-- The scanner partitions the source.  The tokens of a source text but the last have spans of
    the text, which are disjoint, in order and not empty; a span is the first match of the
    pattern table where it starts, and its token has what is read off the match and the line
    and column of the start; before, between and after the spans is nothing but white space and
    whole comments.  It is the only partition of the text.  The last token, and it alone, is
    the end of the text, which is what is drawn ever after. -/
theorem scan_partition (source : String) :
    ∃ spanned, scan source = spanned.map Prod.snd ++ [endOfSource source] ∧
      Partitions source.toList 0 spanned ∧
      (spanned.Pairwise fun st st' => st.1.stop ≤ st'.1.start) ∧
      (∀ other, Partitions source.toList 0 other → other = spanned) ∧
      (∀ st ∈ spanned, st.2.kind ≠ .eof) ∧
      endOfSource source =
        ⟨.eof, "", lineAfter source.toList, columnAfter source.toList⟩ ∧
      ∀ count i, i < count →
        (draw source count)[i]? = some (((scan source)[i]?).getD (endOfSource source)) := by
  obtain ⟨spanned, hscan, hpartition⟩ := exists_partition source.toList 0 (Nat.zero_le _)
  obtain ⟨tokens, htokens, hspelt⟩ := scan_eq source
  have hspanned : spanned.map Prod.snd = tokens :=
    List.append_cancel_right (hscan.symm.trans htokens)
  refine ⟨spanned, hscan, hpartition, hpartition.ordered, fun _ h => h.unique hpartition, ?_, ?_,
    fun _ _ => draw_getElem? source⟩
  · intro st hst
    exact (hspelt st.2 (hspanned ▸ List.mem_map_of_mem hst)).ne_eof
  · rw [endOfSource, after_eq]
    rfl

end Monkey
