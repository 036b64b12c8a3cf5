import Monkey.Proofs.Token.Seam

/-!
# Texts that stand elsewhere

Where a text stands in a source decides where its tokens stand, and nothing else.  So the tokens
of lines that follow one another are those of each line on its own, the later ones further down.
-/

namespace Monkey

/-- A token further down by a number of lines. -/
def Token.lower (lines : Nat) (t : Token) : Token := { t with line := t.line + lines }

namespace Scanner

/-- Tokens are moved as the places are at which they start.  It is enough that they are so for the
    places in question, which every character leads on to others in question. -/
structure Relocates (asked : Position → Prop) (place : Position → Position)
    (move : Token → Token) : Prop where
  goesOn : ∀ p c, asked p → asked (p.next c)
  next : ∀ p c, asked p → place (p.next c) = (place p).next c
  token : ∀ p kind literal, asked p →
    move (tokenAt p kind literal) = tokenAt (place p) kind literal

/-- A text that stands at another place has its tokens moved. -/
theorem Relocates.scanFrom_eq {asked : Position → Prop} {place : Position → Position}
    {move : Token → Token} (h : Relocates asked place move) {p : Position} (hp : asked p)
    (passed : Nat) (cs : List Char) :
    scanFrom passed (place p) cs = (scanFrom passed p cs).map move := by
  induction cs generalizing passed p with
  | nil => cases passed <;> simp [scanFrom, h.token _ _ _ hp]
  | cons c rest ih =>
    have hnext (passed : Nat) :
        scanFrom passed ((place p).next c) rest = (scanFrom passed (p.next c) rest).map move := by
      rw [← h.next p c hp]
      exact ih (h.goesOn p c hp) passed
    cases passed with
    | succ passed => exact hnext passed
    | zero =>
      rw [scanFrom, scanFrom]
      split
      · exact hnext _
      · split
        · rw [hnext, List.map_cons, h.token _ _ _ hp]
        · exact hnext _

theorem relocates_lower (lines : Nat) :
    Relocates (fun _ => True) (fun p => ⟨p.line + lines, p.column⟩) (Token.lower lines) := by
  constructor
  case goesOn => exact fun _ _ _ => trivial
  case next =>
    intro p c _
    unfold Position.next
    split <;> simp [Nat.add_right_comm]
  case token =>
    intro p kind literal _
    simp [Token.lower, tokenAt]

theorem line_after (p : Position) (cs : List Char) :
    (p.after cs).line = p.line + cs.count '\n' := by
  induction cs generalizing p with
  | nil => rfl
  | cons c cs ih =>
    rw [Position.after_cons, ih, List.count_cons]
    by_cases hc : c = '\n'
    · rw [Position.next, if_pos hc, if_pos (beq_iff_eq.mpr hc)]
      show p.line + 1 + _ = _
      omega
    · rw [Position.next, if_neg hc, if_neg (mt beq_iff_eq.mp hc)]
      rfl

end Scanner

open Scanner

/-- Behind a line feed a text is scanned as if it stood alone, further down by the lines before
    it, and what stands before the line feed is scanned as if nothing followed, unless it has an
    open string literal or ends in a backslash. -/
theorem scan_lines {source : String} (hlast : source.toList.getLast? ≠ some '\\')
    (hquotes : ∀ t ∈ scan source, ¬ IsOpenQuote t) (next : String) :
    scan (source ++ "\n" ++ next) =
      (scan source).dropLast ++ (scan next).map (Token.lower (source.toList.count '\n' + 1)) := by
  have hplace : (Position.start.after source.toList).next '\n' =
      ⟨Position.start.line + (source.toList.count '\n' + 1), Position.start.column⟩ := by
    rw [Position.next, if_pos rfl, line_after]
    rfl
  rw [scan_line next hlast hquotes, hplace]
  exact congrArg _ ((relocates_lower _).scanFrom_eq trivial 0 next.toList)

/-- A string literal over two lines and a comment stand before the line feed, and a comment and an
    open string literal behind it. -/
theorem scan_lines_spanning :
    let source := "let s = \"a\nb\"; // it's \""
    let next := "s // \\\n\"c"
    source.toList.getLast? ≠ some '\\' ∧ (∀ t ∈ scan source, ¬ IsOpenQuote t) ∧
      scan (source ++ "\n" ++ next) =
        (scan source).dropLast ++ (scan next).map (Token.lower 2) := by
  intro source next
  have hlast : source.toList.getLast? ≠ some '\\' := by decide
  have hquotes : ∀ t ∈ scan source, ¬ IsOpenQuote t := by
    unfold IsOpenQuote
    decide +kernel
  have hcount : source.toList.count '\n' + 1 = 2 := by decide
  have hscan := scan_lines hlast hquotes next
  rw [hcount] at hscan
  exact ⟨hlast, hquotes, hscan⟩

end Monkey
