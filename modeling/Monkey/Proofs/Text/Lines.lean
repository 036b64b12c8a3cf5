import Mathlib.Data.List.DropRight
import Monkey.Text.Blank
import Monkey.Text.Parts

/-!
# Lines

The lines of a text are what stands between its line feeds.  Every place in a text is on one
line, whose number is one more than the line feeds in front of the place.
-/

namespace Monkey.Text

theorem parts_eq_splitOn (separator : Char) (cs : List Char) :
    parts separator cs = cs.splitOn separator := by
  induction cs with
  | nil => rfl
  | cons c rest ih =>
    rw [parts, List.splitOn_cons_eq_if_modifyHead, ih]
    by_cases hc : c = separator
    · simp [hc]
    · cases h : rest.splitOn separator with
      | nil => exact absurd h (List.splitOn_ne_nil separator rest)
      | cons part more => simp [hc]

theorem length_parts (separator : Char) (cs : List Char) :
    (parts separator cs).length = cs.count separator + 1 := by
  rw [parts_eq_splitOn]
  induction cs with
  | nil => rfl
  | cons c rest ih =>
    rw [List.splitOn_cons_eq_if_modifyHead, List.count_cons]
    split <;> simp [ih]

theorem notMem_of_mem_parts {separator : Char} {cs part : List Char}
    (h : part ∈ parts separator cs) : separator ∉ part := by
  induction cs generalizing part with
  | nil => simp_all [parts]
  | cons c rest ih =>
    rw [parts] at h
    split at h
    · rcases List.mem_cons.mp h with rfl | h
      · exact List.not_mem_nil
      · exact ih h
    · next hc =>
      split at h
      · next first more hparts =>
        rw [hparts] at ih
        rcases List.mem_cons.mp h with rfl | h
        · simpa [Ne.symm hc] using ih (List.mem_cons_self ..)
        · exact ih (List.mem_cons_of_mem _ h)
      · simp_all [Ne.symm hc]

theorem toList_joined (ss : List String) :
    (joined "\n" ss).toList = ['\n'].intercalate (ss.map String.toList) := by
  induction ss with
  | nil => rfl
  | cons s ss ih =>
    cases ss with
    | nil => simp
    | cons t ss => simp [ih]

/-- Texts of one line each are joined by line feeds so that they can be told apart. -/
theorem parts_joined {ss : List String} (h : ∀ s ∈ ss, '\n' ∉ s.toList) (hne : ss ≠ []) :
    parts '\n' (joined "\n" ss).toList = ss.map String.toList := by
  rw [parts_eq_splitOn, toList_joined, List.splitOn_intercalate]
  · simpa using h
  · simpa using hne

@[simp] theorem lines_append (ss ts : List String) : lines (ss ++ ts) = lines ss ++ lines ts := by
  induction ss with
  | nil => simp [lines]
  | cons s ss ih => simp [lines, ih, String.append_assoc]

/-- Texts of one line each are told apart by the line feeds behind them. -/
theorem lines_inj {ss ts : List String} (hss : ∀ s ∈ ss, '\n' ∉ s.toList)
    (hts : ∀ t ∈ ts, '\n' ∉ t.toList) (h : lines ss = lines ts) : ss = ts := by
  have hparts {ss : List String} (hss : ∀ s ∈ ss, '\n' ∉ s.toList) :
      parts '\n' (lines ss).toList = ss.map String.toList ++ [[]] := by
    induction ss with
    | nil => rfl
    | cons s ss ih =>
      obtain ⟨hs, hss⟩ := List.forall_mem_cons.mp hss
      have htext : (lines (s :: ss)).toList = s.toList ++ '\n' :: (lines ss).toList := by
        simp [lines]
      rw [htext, parts_eq_splitOn, List.splitOn_append_cons_self_of_not_mem hs,
        ← parts_eq_splitOn, ih hss]
      rfl
  have heq := hparts hss
  rw [h, hparts hts] at heq
  exact List.map_injective_iff.mpr (fun _ _ => String.toList_inj.mp)
    (List.append_cancel_right heq).symm

/-- A text has a line. -/
def HasLine (text line : String) : Prop := line.toList ∈ parts '\n' text.toList

theorem hasLine_append_feed (s t line : String) :
    HasLine (s ++ "\n" ++ t) line ↔ HasLine s line ∨ HasLine t line := by
  have htext : (s ++ "\n" ++ t).toList = s.toList ++ '\n' :: t.toList := by simp
  unfold HasLine
  rw [htext, parts_eq_splitOn, List.splitOn_append_cons_self, List.mem_append,
    ← parts_eq_splitOn, ← parts_eq_splitOn]

/-- A text without line feeds is its only line. -/
theorem hasLine_iff_eq {s line : String} (h : '\n' ∉ s.toList) : HasLine s line ↔ line = s := by
  unfold HasLine
  rw [parts_eq_splitOn, List.splitOn_eq_singleton h, List.mem_singleton, String.toList_inj]

theorem hasLine_joined {ss : List String} (hne : ss ≠ []) (line : String) :
    HasLine (joined "\n" ss) line ↔ ∃ s ∈ ss, HasLine s line := by
  induction ss with
  | nil => exact absurd rfl hne
  | cons s ss ih =>
    cases ss with
    | nil => simp
    | cons t ss =>
      rw [joined_cons_cons, hasLine_append_feed, ih (List.cons_ne_nil t ss),
        List.exists_mem_cons_iff _ s]

/-- The lines of texts with line feeds behind them are theirs, and an empty one at the end. -/
theorem hasLine_lines (ss : List String) (line : String) :
    HasLine (lines ss) line ↔ (∃ s ∈ ss, HasLine s line) ∨ line = "" := by
  induction ss with
  | nil => simpa [lines] using (hasLine_iff_eq (by decide) : HasLine "" line ↔ line = "")
  | cons s ss ih => rw [lines, hasLine_append_feed, ih, List.exists_mem_cons_iff, or_assoc]

theorem feed_notMem_toDigits (n : Nat) : '\n' ∉ Nat.toDigits 10 n := by
  intro hmem
  exact absurd (Nat.isDigit_of_mem_toDigits (by decide) (by decide) hmem) (by decide)

theorem feed_notMem_repr (n : Int) : '\n' ∉ n.repr.toList := by
  rw [Int.repr_eq_if]
  split <;> simp [feed_notMem_toDigits]

/-! ## The line of a place -/

/-- A text that ends where a line starts. -/
def EndsLine (before : List Char) : Prop := before = [] ∨ ∃ cs, before = cs ++ ['\n']

/-- A text that starts where a line ends. -/
def StartsBehind (after : List Char) : Prop := after = [] ∨ ∃ cs, after = '\n' :: cs

/-- A place in a text, given by the number of characters in front of it, is on a line of the
    text, at an offset from the start of the line. -/
structure OnLine (text : List Char) (i : Nat) (line : List Char) (offset : Nat) : Prop where
  oneLine : '\n' ∉ line
  inside : offset ≤ line.length
  cut : ∃ before after, text = before ++ line ++ after ∧ i = before.length + offset ∧
    EndsLine before ∧ StartsBehind after

/-- What stands in front of the last line of a text. -/
theorem exists_endsLine (cs : List Char) :
    ∃ before, before ++ cs.rtakeWhile (· ≠ '\n') = cs ∧ EndsLine before := by
  refine ⟨_, List.rdropWhile_append_rtakeWhile, ?_⟩
  by_cases h : cs.rdropWhile (· ≠ '\n') = []
  · exact .inl h
  · have hlast := List.rdropWhile_last_not _ cs h
    have hfeed : (cs.rdropWhile (· ≠ '\n')).getLast h = '\n' := by simpa using hlast
    have hsplit := List.dropLast_append_getLast h
    rw [hfeed] at hsplit
    exact .inr ⟨_, hsplit.symm⟩

/-- What stands behind the first line of a text. -/
theorem exists_startsBehind (cs : List Char) :
    ∃ after, cs.takeWhile (· ≠ '\n') ++ after = cs ∧ StartsBehind after := by
  refine ⟨_, List.takeWhile_append_dropWhile, ?_⟩
  induction cs with
  | nil => exact .inl rfl
  | cons c cs ih =>
    by_cases hc : c = '\n'
    · subst hc
      exact .inr ⟨cs, by simp⟩
    · simpa [hc] using ih

/-- What is in front of a line gives all lines before it. -/
theorem EndsLine.parts {before : List Char} (h : EndsLine before) :
    ∃ front, front.length = before.count '\n' ∧
      ∀ cs, parts '\n' (before ++ cs) = front ++ parts '\n' cs := by
  rcases h with rfl | ⟨ds, rfl⟩
  · exact ⟨[], rfl, fun _ => rfl⟩
  · refine ⟨Text.parts '\n' ds, by simp [length_parts], fun cs => ?_⟩
    simp [parts_eq_splitOn, List.splitOn_append_cons_self]

theorem StartsBehind.parts {line after : List Char} (h : StartsBehind after)
    (hline : '\n' ∉ line) : ∃ back, parts '\n' (line ++ after) = line :: back := by
  rw [parts_eq_splitOn]
  rcases h with rfl | ⟨cs, rfl⟩
  · exact ⟨[], by simp [List.splitOn_eq_singleton hline]⟩
  · exact ⟨_, List.splitOn_append_cons_self_of_not_mem hline cs⟩

/-- Every place in a text is on a line.  The offset is how many characters there are behind the
    last line feed in front of the place, and as many lines come first as there are line feeds
    in front of it. -/
theorem exists_onLine {text : List Char} {i : Nat} (hi : i ≤ text.length) :
    ∃ line, OnLine text i line ((text.take i).rtakeWhile (· ≠ '\n')).length ∧
      (parts '\n' text)[(text.take i).count '\n']? = some line := by
  obtain ⟨before, htake, hbefore⟩ := exists_endsLine (text.take i)
  obtain ⟨after, hdrop, hafter⟩ := exists_startsBehind (text.drop i)
  have hleft : '\n' ∉ (text.take i).rtakeWhile (· ≠ '\n') :=
    fun hmem => by simpa using List.mem_rtakeWhile_imp hmem
  have hright : '\n' ∉ (text.drop i).takeWhile (· ≠ '\n') :=
    fun hmem => by simpa using List.mem_takeWhile_imp hmem
  generalize (text.take i).rtakeWhile (· ≠ '\n') = left at *
  generalize (text.drop i).takeWhile (· ≠ '\n') = right at *
  have hline : '\n' ∉ left ++ right := by simp [hleft, hright]
  have htext : text = before ++ (left ++ right) ++ after := by
    calc text = text.take i ++ text.drop i := (List.take_append_drop i text).symm
      _ = before ++ left ++ (right ++ after) := by rw [htake, hdrop]
      _ = before ++ (left ++ right) ++ after := by simp only [List.append_assoc]
  have hlength : i = before.length + left.length := by
    rw [← List.length_append, htake, List.length_take, Nat.min_eq_left hi]
  refine ⟨left ++ right, ⟨hline, by simp, before, after, htext, hlength, hbefore, hafter⟩, ?_⟩
  obtain ⟨front, hfront, hparts⟩ := hbefore.parts
  obtain ⟨back, hback⟩ := hafter.parts hline
  have hcount : (text.take i).count '\n' = front.length := by
    rw [hfront, ← htake, List.count_append, List.count_eq_zero.mpr hleft, Nat.add_zero]
  rw [hcount, htext, List.append_assoc, hparts, hback]
  simp

namespace OnLine

variable {text row : List Char} {i offset : Nat}

/-- Within the line, and at its end if that is the end of the text, the place holds the same
    character in the line as in the text. -/
theorem getElem?_eq (h : OnLine text i row offset) (hfeed : text[i]? ≠ some '\n') :
    row[offset]? = text[i]? := by
  obtain ⟨before, after, rfl, rfl, -, hafter⟩ := h.cut
  rw [List.append_assoc, List.getElem?_append_right (by omega), Nat.add_sub_cancel_left] at *
  rcases Nat.eq_or_lt_of_le h.inside with rfl | hlt
  · rcases hafter with rfl | ⟨cs, rfl⟩
    · simp
    · simp at hfeed
  · rw [List.getElem?_append_left hlt]

end OnLine

end Monkey.Text
