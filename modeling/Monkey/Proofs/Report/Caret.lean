import Monkey.Proofs.Parser.Order
import Monkey.Proofs.Text.Lines
import Monkey.Proofs.Token.Partition
import Monkey.Report.Basic

/-!
# Where the caret stands

A report shows the line of every mistake with a label in front and a caret below.  The label
takes six columns as long as the number of the line has at most four digits.  The caret is set
as if it always did, so that on later lines it stands left of the mistake.
-/

namespace Monkey

open Scanner

/-! ## Where tokens start -/

/-- The number of characters in front of a token of a source text.  The end of the text comes
    behind its last character. -/
inductive StartsAt (source : String) : Token → Nat → Prop
  | spanned {spanned : List (Span × Token)} {s : Span} {t : Token} :
      Partitions source.toList 0 spanned → (s, t) ∈ spanned → StartsAt source t s.start
  | final : StartsAt source (endOfSource source) source.toList.length

theorem exists_startsAt {source : String} {t : Token} (h : t ∈ scan source) :
    ∃ i, StartsAt source t i := by
  obtain ⟨spanned, hscan, hpartition⟩ := exists_partition source.toList 0 (Nat.zero_le _)
  have hscan : scan source = spanned.map Prod.snd ++ [endOfSource source] := hscan
  rw [hscan, List.mem_append, List.mem_map, List.mem_singleton] at h
  rcases h with ⟨⟨s, t⟩, hst, rfl⟩ | rfl
  · exact ⟨_, .spanned hpartition hst⟩
  · exact ⟨_, .final⟩

theorem Scanner.Partitions.isToken {text : List Char} {i : Nat} {spanned : List (Span × Token)}
    (h : Partitions text i spanned) : ∀ st ∈ spanned, IsToken text st.1 st.2 := by
  induction spanned generalizing i with
  | nil => exact List.forall_mem_nil _
  | cons first rest ih =>
    obtain ⟨-, -, htoken, hrest⟩ := h
    exact List.forall_mem_cons.mpr ⟨htoken, ih hrest⟩

/-- No token of a partition is the end of the text. -/
theorem Scanner.Partitions.kind_ne_eof {source : String} {spanned : List (Span × Token)}
    (h : Partitions source.toList 0 spanned) : ∀ st ∈ spanned, st.2.kind ≠ .eof := by
  obtain ⟨found, hfound, hpartition⟩ := exists_partition source.toList 0 (Nat.zero_le _)
  rw [← h.unique hpartition] at hfound
  obtain ⟨tokens, hscan, hspelt⟩ := scan_eq source
  have htokens : spanned.map Prod.snd = tokens :=
    List.append_cancel_right (hfound.symm.trans hscan)
  intro st hst
  exact (hspelt st.2 (htokens ▸ List.mem_map_of_mem hst)).ne_eof

namespace StartsAt

variable {source : String} {t : Token} {i : Nat}

theorem le_length (h : StartsAt source t i) : i ≤ source.toList.length := by
  cases h with
  | spanned hpartition hst =>
    have htoken := hpartition.isToken _ hst
    exact htoken.nonempty.le.trans htoken.within
  | final => exact le_rfl

theorem line (h : StartsAt source t i) :
    t.line = ((source.toList.take i).count '\n' + 1 : Nat) := by
  cases h with
  | spanned hpartition hst => exact (hpartition.isToken _ hst).line
  | final =>
    rw [endOfSource, after_eq, List.take_length]
    rfl

theorem column (h : StartsAt source t i) :
    t.column = (((source.toList.take i).rtakeWhile (· ≠ '\n')).length + 1 : Nat) := by
  have hcolumn (cs : List Char) : columnAfter cs = (cs.rtakeWhile (· ≠ '\n')).length + 1 := by
    simp [columnAfter, List.rtakeWhile]
  rw [← hcolumn]
  cases h with
  | spanned hpartition hst => exact (hpartition.isToken _ hst).column
  | final =>
    rw [endOfSource, after_eq, List.take_length]
    rfl

/-- No token starts with a line feed. -/
theorem getElem?_ne (h : StartsAt source t i) : source.toList[i]? ≠ some '\n' := by
  cases h with
  | @spanned _ s _ hpartition hst =>
    intro hfeed
    rw [← List.head?_drop] at hfeed
    have hblank := (hpartition.isToken _ hst).stops.1 '\n' hfeed
    exact absurd hblank (by decide)
  | final => simp

theorem eq_length (h : StartsAt source t i) (ht : t.kind = .eof) : i = source.toList.length := by
  cases h with
  | spanned hpartition hst => exact absurd ht (hpartition.kind_ne_eof _ hst)
  | final => rfl

end StartsAt

/-- Where a token of a source text stands: behind `i` characters of the text, on a line behind
    `m` others, and behind `offset` characters of the line. -/
structure Stands (source : String) (t : Token) (i m offset : Nat) (row : List Char) : Prop where
  startsAt : StartsAt source t i
  onLine : Text.OnLine source.toList i row offset
  listed : (Text.parts '\n' source.toList)[m]? = some row
  line : t.line = (m + 1 : Nat)
  column : t.column = (offset + 1 : Nat)

theorem exists_stands {source : String} {t : Token} (h : t ∈ scan source) :
    ∃ i m offset row, Stands source t i m offset row := by
  obtain ⟨i, hi⟩ := exists_startsAt h
  obtain ⟨row, honLine, hlisted⟩ := Text.exists_onLine hi.le_length
  exact ⟨i, _, _, row, hi, honLine, hlisted, hi.line, hi.column⟩

namespace Stands

variable {source : String} {t : Token} {i m offset : Nat} {row : List Char}

/-- The character of the line where the token stands is the one that the token starts with, and
    there is none if the token is the end of the text. -/
theorem getElem?_eq (h : Stands source t i m offset row) :
    row[offset]? = source.toList[i]? :=
  h.onLine.getElem?_eq h.startsAt.getElem?_ne

/-- The end of the text stands behind the last character of its line. -/
theorem offset_eq (h : Stands source t i m offset row) (ht : t.kind = .eof) :
    offset = row.length := by
  have hnone : row[offset]? = none := by
    rw [h.getElem?_eq, h.startsAt.eq_length ht]
    simp
  exact Nat.le_antisymm h.onLine.inside (List.getElem?_eq_none_iff.mp hnone)

end Stands

namespace Report

/-! ## Lines of a context -/

theorem toList_lineLabel (number : Nat) :
    (lineLabel number).toList = List.replicate (4 - (toString number).length) ' ' ++
      (toString number).toList ++ [':', ' '] := by
  simp [lineLabel, alignedRight]

theorem length_lineLabel (number : Nat) :
    (lineLabel number).length = 6 + ((toString number).length - 4) := by
  rw [← String.length_toList, toList_lineLabel]
  simp only [List.length_append, List.length_replicate, String.length_toList, List.length_cons,
    List.length_nil]
  omega

theorem feed_notMem_lineLabel (number : Nat) : '\n' ∉ (lineLabel number).toList := by
  simp [toList_lineLabel, Text.feed_notMem_toDigits]

theorem length_toString_le_four (number : Nat) : (toString number).length ≤ 4 ↔ number < 10000 :=
  Nat.length_repr_le_iff (by decide)

variable {source : String} {m : Nat} {line : List Char}

/-- A line of a context that shows the line of a source text behind `k` others. -/
def ShowsLine (source : String) (k : Nat) (shown : String) : Prop :=
  ∃ line, (Text.parts '\n' source.toList)[k]? = some line ∧
    shown = lineLabel (k + 1) ++ String.ofList line

theorem ShowsLine.feed_notMem {k : Nat} {shown : String} (h : ShowsLine source k shown) :
    '\n' ∉ shown.toList := by
  obtain ⟨line, hline, rfl⟩ := h
  have hfeed := Text.notMem_of_mem_parts (List.mem_of_getElem? hline)
  simp [feed_notMem_lineLabel, hfeed]

theorem feed_notMem_caretLine (column : Int) : '\n' ∉ (caretLine column).toList := by
  simp [caretLine]

theorem flatMap_of_getElem? {α β : Type} {xs : List α} {i : Nat} {a : α} (h : xs[i]? = some a)
    (f : α → List β) :
    xs.flatMap f = (xs.take i).flatMap f ++ f a ++ (xs.drop (i + 1)).flatMap f := by
  obtain ⟨hi, rfl⟩ := List.getElem?_eq_some_iff.mp h
  conv => lhs; rw [← List.take_append_drop i xs, List.drop_eq_getElem_cons hi]
  rw [List.flatMap_append, List.flatMap_cons, List.append_assoc]

/-- The entries of a numbered list other than the one at a position. -/
theorem ne_of_mem_zipIdx {α : Type} {xs : List α} {x : α × Nat}
    (h : x ∈ xs.zipIdx.take m ∨ x ∈ xs.zipIdx.drop (m + 1)) : x.2 ≠ m := by
  rcases h with h | h
  · obtain ⟨i, hi, rfl⟩ := List.mem_take_iff_getElem.mp h
    simp only [List.getElem_zipIdx]
    omega
  · obtain ⟨i, hi, rfl⟩ := List.mem_drop_iff_getElem.mp h
    simp only [List.getElem_zipIdx]
    omega

/-- A line of a source text is shown in the context around it, with the mark below it, and every
    other line of the context shows another line. -/
theorem exists_contextLines (hline : (Text.parts '\n' source.toList)[m]? = some line)
    (column : Int) {around : Int} (haround : 0 ≤ around) :
    ∃ above below, contextLines source (m + 1 : Nat) column around =
        above ++ [lineLabel (m + 1) ++ String.ofList line, caretLine column] ++ below ∧
      ∀ s ∈ above ++ below, ∃ k, k ≠ m ∧ ShowsLine source k s := by
  have hzip : (Text.parts '\n' source.toList).zipIdx[m]? = some (line, m) := by simp [hline]
  have hmarked : ((m + 1 : Nat) : Int) - around ≤ (m + 1 : Nat) ∧
      ((m + 1 : Nat) : Int) ≤ (m + 1 : Nat) + around := by omega
  unfold contextLines
  rw [flatMap_of_getElem? hzip]
  simp only [if_pos hmarked, shownLine, if_true]
  refine ⟨_, _, rfl, fun s hs => ?_⟩
  rw [← List.flatMap_append, List.mem_flatMap] at hs
  obtain ⟨⟨text, k⟩, hk, hs⟩ := hs
  rw [List.mem_append] at hk
  have hne : k ≠ m := ne_of_mem_zipIdx hk
  have hmem : (text, k) ∈ (Text.parts '\n' source.toList).zipIdx :=
    hk.elim List.mem_of_mem_take List.mem_of_mem_drop
  refine ⟨k, hne, text, List.mem_zipIdx_iff_getElem?.mp hmem, ?_⟩
  split at hs
  · rw [if_neg (by omega), List.mem_singleton] at hs
    exact hs
  · cases hs

theorem feed_notMem_contextLines {line column around : Int} :
    ∀ s ∈ contextLines source line column around, '\n' ∉ s.toList := by
  intro s hs
  obtain ⟨⟨text, k⟩, hk, hs⟩ := List.mem_flatMap.mp hs
  have hshown : ShowsLine source k (lineLabel (k + 1) ++ String.ofList text) :=
    ⟨text, List.mem_zipIdx_iff_getElem?.mp hk, rfl⟩
  simp only [shownLine] at hs
  split at hs
  · split at hs
    · simp only [List.mem_cons, List.not_mem_nil, or_false] at hs
      rcases hs with rfl | rfl
      · exact hshown.feed_notMem
      · exact feed_notMem_caretLine column
    · rw [List.mem_singleton.mp hs]
      exact hshown.feed_notMem
  · cases hs

end Report

/-- The context of a token shows its line, and below it the caret line of its column. -/
theorem Stands.parts_context {source : String} {t : Token} {i m offset : Nat} {row : List Char}
    (h : Stands source t i m offset row) :
    ∃ above below,
      Text.parts '\n' (Report.context source t.line t.column Report.contextMargin).toList =
        (above ++ [Report.lineLabel (m + 1) ++ String.ofList row, Report.caretLine t.column] ++
          below).map String.toList ∧
      ∀ s ∈ above ++ below, ∃ k, k ≠ m ∧ Report.ShowsLine source k s := by
  obtain ⟨above, below, hlines, hother⟩ := Report.exists_contextLines h.listed t.column
    (by decide : 0 ≤ Report.contextMargin)
  rw [← h.line] at hlines
  have hne : Report.contextLines source t.line t.column Report.contextMargin ≠ [] := by
    rw [hlines]
    simp
  refine ⟨above, below, ?_, hother⟩
  rw [← hlines]
  exact Text.parts_joined Report.feed_notMem_contextLines hne

/-- The context of every mistake in a source text shows the line of its token, with a label in
    front, and below it a caret.  In the labelled line the first character of the token stands
    behind the label and as many characters as in front of the token on its line; if the token is
    the end of the text, the labelled line ends there.  The caret stands left of that place by as
    many columns as the line number has digits beyond four, so right below it up to line 9999.
    The other lines of the context are other lines of the text with their labels. -/
theorem context_marks_token {source : String} {p : Parse} (h : parse source = .ok p)
    {d : Diagnostic} (hd : d ∈ p.diagnostics) :
    ∃ i m offset row shown indent above below text,
      Stands source d.token i m offset row ∧
      (d.token.kind = .eof → offset = row.length) ∧
      ((Report.Record.ofDiagnostic d).withSource source).context = some text ∧
      Text.parts '\n' text.toList = (above ++ [shown,
        String.ofList (List.replicate indent ' ') ++ "^ Error here"] ++ below).map String.toList ∧
      shown = Report.lineLabel (m + 1) ++ String.ofList row ∧
      shown.toList[(Report.lineLabel (m + 1)).length + offset]? = source.toList[i]? ∧
      indent + ((toString (m + 1)).length - 4) = (Report.lineLabel (m + 1)).length + offset ∧
      (indent = (Report.lineLabel (m + 1)).length + offset ↔ m + 1 < 10000) ∧
      ∀ s ∈ above ++ below, ∃ k, k ≠ m ∧ Report.ShowsLine source k s := by
  obtain ⟨i, m, offset, row, hstands⟩ := exists_stands (token_mem_of_parse h d hd)
  obtain ⟨above, below, hparts, hother⟩ := hstands.parts_context
  have hindent : Report.caretOffset + (d.token.column - 1).toNat = 6 + offset := by
    rw [hstands.column, Report.caretOffset]
    omega
  rw [Report.caretLine, hindent] at hparts
  have hlength := Report.length_lineLabel (m + 1)
  have hdigits := Report.length_toString_le_four (m + 1)
  refine ⟨i, m, offset, row, _, 6 + offset, above, below, _, hstands, hstands.offset_eq, rfl,
    hparts, rfl, ?_, by omega, by omega, hother⟩
  rw [String.toList_append, String.toList_ofList, ← String.length_toList,
    List.getElem?_append_right (Nat.le_add_right _ _), Nat.add_sub_cancel_left]
  exact hstands.getElem?_eq

/-- On a second line the caret stands below a numeral that should be a name. -/
theorem context_marks_token_numeral :
    ∃ p, parse "let x = 1;\n  let 5;" = .ok p ∧
      p.diagnostics = [⟨.unexpected .ident, ⟨.int, "5", 2, 7⟩⟩] ∧
      ∃ i m offset row indent,
        Stands "let x = 1;\n  let 5;" ⟨.int, "5", 2, 7⟩ i m offset row ∧
        indent = (Report.lineLabel (m + 1)).length + offset := by
  have hfacts : (parse "let x = 1;\n  let 5;").map Parse.diagnostics =
      .ok [⟨.unexpected .ident, ⟨.int, "5", 2, 7⟩⟩] := by decide
  obtain ⟨p, hp, hdiagnostics⟩ := exists_of_map_ok hfacts
  have hmem : ⟨.unexpected .ident, ⟨.int, "5", 2, 7⟩⟩ ∈ p.diagnostics := by simp [hdiagnostics]
  obtain ⟨i, m, offset, row, _, indent, -, -, -, hstands, -, -, -, -, -, -, hindent, -⟩ :=
    context_marks_token hp hmem
  have hsecond : m + 1 < 10000 := by
    have hline : (2 : Int) = (m + 1 : Nat) := hstands.line
    omega
  exact ⟨p, hp, hdiagnostics, i, m, offset, row, indent, hstands, hindent.mpr hsecond⟩

end Monkey
