import Mathlib.Data.List.Forall2
import Monkey.Proofs.Token.Relocation

/-!
# String literals

A text is written as a string literal by replacing, in the whole of it, one character after the
other by an escape.  Whatever text is written and whatever follows it, the literal is read as one
token that spells the text, and what follows is read as if it stood alone.
-/

namespace Monkey

/-! ## Writing -/

/-- A text in which a character is replaced wherever it stands. -/
def replaced (c : Char) (replacement : List Char) (cs : List Char) : List Char :=
  cs.flatMap fun d => if d = c then replacement else [d]

/-- The characters that are escaped in string literals, with their escapes, in the order in which
    they are replaced: the backslash first, since the others bring in backslashes of their own. -/
def escapeTable : List (Char × List Char) :=
  [('\\', ['\\', '\\']), ('"', ['\\', '"']), ('\n', ['\\', 'n']), ('\t', ['\\', 't']),
    ('\r', ['\\', 'r'])]

/-- A text in which characters are replaced one after the other. -/
def replacedAll (table : List (Char × List Char)) (cs : List Char) : List Char :=
  table.foldl (fun cs entry => replaced entry.1 entry.2 cs) cs

/-- To replace in a text is to replace in each of its characters. -/
theorem replacedAll_eq_flatMap (table : List (Char × List Char)) (cs : List Char) :
    replacedAll table cs = cs.flatMap fun c => replacedAll table [c] := by
  induction table generalizing cs with
  | nil => exact (List.flatMap_singleton' cs).symm
  | cons entry table ih =>
    have hstep (ds : List Char) :
        replacedAll (entry :: table) ds = replacedAll table (replaced entry.1 entry.2 ds) := rfl
    have hchar (c : Char) : replacedAll (entry :: table) [c] =
        (if c = entry.1 then entry.2 else [c]).flatMap fun d => replacedAll table [d] := by
      rw [hstep, ih, replaced, List.flatMap_singleton]
    simp only [hchar]
    rw [hstep, ih, replaced, List.flatMap_assoc]

theorem replacedAll_escapeTable (c : Char) :
    replacedAll escapeTable [c] = escapedLiteralChar c := by
  by_cases hslash : c = '\\'
  · subst hslash
    rfl
  by_cases hquote : c = '"'
  · subst hquote
    rfl
  by_cases hfeed : c = '\n'
  · subst hfeed
    rfl
  by_cases htab : c = '\t'
  · subst htab
    rfl
  by_cases hreturn : c = '\r'
  · subst hreturn
    rfl
  simp [replacedAll, escapeTable, replaced, escapedLiteralChar, hslash, hquote, hfeed, htab,
    hreturn]

/-- A string literal is the text with one character after the other replaced, between quotes. -/
theorem toList_stringLiteral (s : String) :
    (stringLiteral s).toList = '"' :: (replacedAll escapeTable s.toList ++ ['"']) := by
  unfold stringLiteral
  rw [String.toList_ofList, replacedAll_eq_flatMap]
  simp only [replacedAll_escapeTable]

/-- A string literal stands on one line, whatever it spells. -/
theorem feed_notMem_stringLiteral (s : String) : '\n' ∉ (stringLiteral s).toList := by
  have hchar (c : Char) : '\n' ∉ escapedLiteralChar c := by
    rcases Scanner.escapedLiteralChar_cases c with ⟨d, heq, hd, -⟩ | ⟨heq, -, -⟩
    · simp [heq, Ne.symm hd]
    · intro hmem
      rw [heq, List.mem_singleton] at hmem
      subst hmem
      cases heq
  simp [stringLiteral, hchar]

/-! ## Reading -/

/-- A token further right by a number of columns, if it stands on the first line. -/
def Token.indent (columns : Nat) (t : Token) : Token :=
  if t.line = 1 then { t with column := t.column + columns } else t

theorem Token.sameText_indent (columns : Nat) (t : Token) : (t.indent columns).SameText t := by
  unfold indent
  split <;> exact ⟨rfl, rfl⟩

namespace Scanner

theorem relocates_indent (columns : Nat) :
    Relocates (fun p => 1 ≤ p.line)
      (fun p => if p.line = 1 then ⟨1, p.column + columns⟩ else p) (Token.indent columns) := by
  constructor
  case goesOn =>
    intro p c hp
    unfold Position.next
    split
    · exact Nat.le_add_left 1 p.line
    · exact hp
  case next =>
    intro p c hp
    unfold Position.next
    by_cases hc : c = '\n'
    · -- The line that starts here is not the first.
      have hline : p.line + 1 ≠ 1 := by omega
      simp only [if_pos hc, if_neg hline]
      split
      · next hfirst => rw [hfirst]
      · rfl
    · simp only [if_neg hc]
      split
      · simp [Nat.add_right_comm]
      · rfl
  case token =>
    intro p kind literal _
    unfold Token.indent tokenAt
    by_cases hfirst : p.line = 1
    · simp [hfirst]
    · have hline : (p.line : Int) ≠ 1 := mt Int.natCast_inj.mp hfirst
      simp [hfirst, hline]

theorem after_of_notMem {cs : List Char} (h : '\n' ∉ cs) (p : Position) :
    p.after cs = ⟨p.line, p.column + cs.length⟩ := by
  induction cs generalizing p with
  | nil => rfl
  | cons c cs ih =>
    rw [List.mem_cons, not_or] at h
    rw [Position.after_cons, ih h.2, Position.next, if_neg (Ne.symm h.1), List.length_cons]
    simp [Nat.add_comm, Nat.add_left_comm]

/-- A string literal in front of a text is one token, and what follows is scanned from its end
    on. -/
theorem scanFrom_stringLiteral (p : Position) (s : String) (ds : List Char) :
    scanFrom 0 p ((stringLiteral s).toList ++ ds) =
      tokenAt p .string s.toList :: scanFrom 0 (p.after (stringLiteral s).toList) ds := by
  have htext : (stringLiteral s).toList = '"' :: (s.toList.flatMap escapedLiteralChar ++ ['"']) :=
    String.toList_ofList
  have hbody := scanFrom_append (s.toList.flatMap escapedLiteralChar ++ ['"']) ds 0 (p.next '"')
  rw [List.append_assoc, List.singleton_append, List.length_append] at hbody
  rw [htext, List.cons_append, List.append_assoc, List.singleton_append,
    scanFrom_of_lexeme p (triviaLength_eq_zero rfl (by decide) _) (lexeme?_stringLiteral s ds)]
  exact congrArg _ hbody

end Scanner

open Scanner

/-- A text is written as a string literal by replacing its characters.  In front of any other text,
    the literal is one token that spells the text, and the tokens behind it are those of the other
    text, moved to the end of the literal. -/
theorem scan_stringLiteral (s rest : String) (token : Option Token) :
    (Node.string s token).text.toList = '"' :: (replacedAll escapeTable s.toList ++ ['"']) ∧
      ∃ more, scan ((Node.string s token).text ++ rest) = ⟨.string, s, 1, 1⟩ :: more ∧
        more = (scan rest).map (Token.indent (Node.string s token).text.length) ∧
        List.Forall₂ Token.SameText more (scan rest) := by
  have hend : Position.start.after (stringLiteral s).toList = ⟨1, 1 + (stringLiteral s).length⟩ :=
    after_of_notMem (feed_notMem_stringLiteral s) _
  have hrest := (relocates_indent (stringLiteral s).length).scanFrom_eq
    (p := Position.start) Nat.le.refl 0 rest.toList
  have hscan : scan (stringLiteral s ++ rest) =
      ⟨.string, s, 1, 1⟩ :: (scan rest).map (Token.indent (stringLiteral s).length) := by
    unfold scan
    rw [String.toList_append, scanFrom_stringLiteral, hend, ← hrest]
    simp [tokenAt, Position.start]
  refine ⟨toList_stringLiteral s, _, hscan, rfl, ?_⟩
  rw [List.forall₂_map_left_iff]
  exact List.forall₂_same.mpr fun t _ => t.sameText_indent _

/-- A quote behind a backslash, and an escape that spells no line feed. -/
example : scan ((Node.string "\\\"\\n" none).text ++ "\"\n;") =
    [⟨.string, "\\\"\\n", 1, 1⟩, ⟨.illegal, "\"", 1, 10⟩, ⟨.semicolon, ";", 2, 1⟩,
      ⟨.eof, "", 2, 2⟩] := by
  decide +kernel

end Monkey
