import Monkey.Proofs.Token.Seam

/-!
# What a comment hides

A comment on a line of its own ends with that line and leaves the tokens of the lines that
follow as they are, unless a backslash stands before the line feed: then the next line is
hidden as well.
-/

namespace Monkey

namespace Scanner

/-- A text of whole lines: it ends in a line feed, if it is not empty. -/
def WholeLines (cs : List Char) : Prop :=
  ∀ c ∈ cs.getLast?, c = '\n'

namespace WholeLines

variable {c : Char} {cs : List Char}

theorem tail (h : WholeLines (c :: cs)) : WholeLines cs := by
  intro d hd
  apply h d
  rw [List.getLast?_cons, hd]
  rfl

theorem eq_nil_or (h : WholeLines cs) : cs = [] ∨ ∃ line, cs = line ++ ['\n'] := by
  cases hlast : cs.getLast? with
  | none => exact .inl (List.getLast?_eq_none_iff.mp hlast)
  | some d =>
    obtain ⟨line, hline⟩ := List.getLast?_eq_some_iff.mp hlast
    rw [h d hlast] at hline
    exact .inr ⟨line, hline⟩

/-- Only a line feed can end whole lines. -/
theorem ne_nil_of_ne (h : WholeLines (c :: cs)) (hc : c ≠ '\n') : cs ≠ [] := by
  rintro rfl
  exact hc (h c rfl)

theorem head?_append (h : WholeLines (c :: cs)) (hc : c ≠ '\n') (ds : List Char) :
    (cs ++ ds).head? = cs.head? := by
  cases cs with
  | nil => exact absurd rfl (h.ne_nil_of_ne hc)
  | cons d cs => rfl

end WholeLines

/-! ## Whole lines in front of a text -/

/-- White space and comments at the start of whole lines end within them, whatever follows, or
    go on behind them, inside a comment or outside of one. -/
theorem triviaLength_lines (inComment : Bool) {cs : List Char} (h : WholeLines cs) :
    ∃ after : Bool, ∀ ds, triviaLength inComment (cs ++ ds) =
      if triviaLength inComment cs = cs.length then cs.length + triviaLength after ds
      else triviaLength inComment cs := by
  fun_induction triviaLength inComment cs with
  | case1 inComment => exact ⟨inComment, fun ds => by simp⟩
  | case2 rest ih =>
    obtain ⟨after, hafter⟩ := ih h.tail.tail
    refine ⟨after, ?_⟩
    intro ds
    rw [List.cons_append, List.cons_append, triviaLength, hafter]
    simp only [List.length_cons]
    split <;> split <;> omega
  | case3 c rest hne ih =>
    obtain ⟨after, hafter⟩ := ih h.tail
    refine ⟨after, ?_⟩
    intro ds
    have hhead : ¬ (c = '\\' ∧ (rest ++ ds).head? = some '\n') := by
      rintro ⟨rfl, hhead⟩
      rw [h.head?_append (by decide) ds] at hhead
      obtain ⟨more, hmore⟩ := List.head?_eq_some_iff.mp hhead
      exact hne more rfl hmore
    rw [List.cons_append, triviaLength_comment hhead, hafter]
    simp only [List.length_cons]
    split <;> split <;> omega
  | case4 rest ih =>
    obtain ⟨after, hafter⟩ := ih h.tail.tail
    refine ⟨after, ?_⟩
    intro ds
    rw [List.cons_append, List.cons_append, triviaLength, hafter]
    simp only [List.length_cons]
    split <;> split <;> omega
  | case5 c rest hne hspace ih =>
    obtain ⟨after, hafter⟩ := ih h.tail
    refine ⟨after, ?_⟩
    intro ds
    have hslash : ¬ (c = '/' ∧ (rest ++ ds).head? = some '/') := by
      rintro ⟨rfl, -⟩
      exact absurd hspace (by decide)
    rw [List.cons_append, triviaLength_plain hslash, if_pos hspace, hafter]
    simp only [List.length_cons]
    split <;> split <;> omega
  | case6 c rest hne hspace =>
    refine ⟨false, ?_⟩
    intro ds
    have hfeed : c ≠ '\n' := by
      rintro rfl
      exact hspace rfl
    have hslash : ¬ (c = '/' ∧ (rest ++ ds).head? = some '/') := by
      rintro ⟨rfl, hhead⟩
      rw [h.head?_append hfeed ds] at hhead
      obtain ⟨more, hmore⟩ := List.head?_eq_some_iff.mp hhead
      exact hne more rfl hmore
    rw [List.cons_append, triviaLength_plain hslash, if_neg hspace]
    simp

/-- What is read at a character of whole lines does not depend on what follows the lines. -/
theorem lexeme?_lines {c : Char} {cs : List Char} (h : WholeLines (c :: cs)) (hc : c ≠ '\n')
    (hquote : c = '"' → stringBody? cs ≠ none) (ds : List Char) :
    lexeme? c (cs ++ ds) = lexeme? c cs := by
  obtain hnil | ⟨line, rfl⟩ := h.tail.eq_nil_or
  · exact absurd hnil (h.ne_nil_of_ne hc)
  rw [List.append_assoc, List.singleton_append]
  unfold lexeme?
  by_cases hq : c = '"'
  · obtain ⟨body, hbody⟩ := Option.ne_none_iff_exists'.mp (hquote hq)
    have happend := stringBody?_append hbody ds
    rw [List.append_assoc, List.singleton_append] at happend
    rw [if_pos hq, if_pos hq, hbody, happend]
  · rw [if_neg hq, if_neg hq, takeWhile_line (by decide), takeWhile_line (by decide),
      takeWhile_line (by decide), takeWhile_line (by decide), symbol?_line, symbol?_line]

/-- The tokens of whole lines and a text behind them are those of the lines without their end,
    and then those of the text, which starts inside a comment if the lines end inside one. -/
theorem scanFrom_lines {passed : Nat} {p : Position} {cs : List Char}
    (hpassed : passed ≤ cs.length) (hlines : WholeLines cs)
    (hquotes : ∀ t ∈ scanFrom passed p cs, ¬ IsOpenQuote t) :
    ∃ inComment : Bool, ∀ ds, scanFrom passed p (cs ++ ds) =
      (scanFrom passed p cs).dropLast ++ scanFrom (triviaLength inComment ds) (p.after cs) ds := by
  induction cs generalizing passed p with
  | nil =>
    obtain rfl : passed = 0 := Nat.le_zero.mp hpassed
    exact ⟨false, fun ds => (scanFrom_trivia p ds).symm⟩
  | cons c rest ih =>
    cases passed with
    | succ passed => exact ih (Nat.le_of_succ_le_succ hpassed) hlines.tail hquotes
    | zero =>
      obtain ⟨inComment, htrivia⟩ := triviaLength_lines false hlines
      simp only [List.cons_append] at htrivia ⊢
      cases hlength : triviaLength false (c :: rest) with
      | succ more =>
        have hmore : more + 1 ≤ rest.length + 1 := hlength ▸ triviaLength_le false (c :: rest)
        rw [hlength, List.length_cons] at htrivia
        rw [scanFrom_of_trivia p hlength] at hquotes ⊢
        by_cases hend : more = rest.length
        · -- The lines are white space and comments to their end.
          refine ⟨inComment, fun ds => ?_⟩
          have hall : triviaLength false (c :: (rest ++ ds)) =
              rest.length + triviaLength inComment ds + 1 := by
            rw [htrivia, if_pos (by rw [hend])]
            omega
          have hnone := scanFrom_append rest [] 0 (p.next c)
          rw [List.append_nil, Nat.add_zero] at hnone
          rw [scanFrom_of_trivia p hall, scanFrom_append, hend, hnone]
          rfl
        · obtain ⟨inComment, hrest⟩ := ih (Nat.le_of_succ_le_succ hmore) hlines.tail hquotes
          refine ⟨inComment, fun ds => ?_⟩
          have hsame := htrivia ds
          rw [if_neg fun h => hend (Nat.succ_injective h)] at hsame
          rw [scanFrom_of_trivia p hsame]
          exact hrest ds
      | zero =>
        have hsame (ds : List Char) : triviaLength false (c :: (rest ++ ds)) = 0 := by
          rw [htrivia ds, hlength, List.length_cons, if_neg (Nat.succ_ne_zero _).symm]
        have hfeed : c ≠ '\n' := by
          rintro rfl
          rw [triviaLength_plain (by simp), if_pos (by decide)] at hlength
          cases hlength
        have hlexeme := lexeme?_lines hlines hfeed (stringBody?_ne_none hlength hquotes)
        cases hl : lexeme? c rest with
        | none =>
          rw [scanFrom_of_none p hlength hl] at hquotes ⊢
          obtain ⟨inComment, hrest⟩ := ih (Nat.zero_le _) hlines.tail hquotes
          refine ⟨inComment, fun ds => ?_⟩
          rw [scanFrom_of_none p (hsame ds) ((hlexeme ds).trans hl)]
          exact hrest ds
        | some l =>
          rw [scanFrom_of_lexeme p hlength hl, List.forall_mem_cons] at hquotes
          obtain ⟨inComment, hrest⟩ := ih (lexeme?_more_le hl) hlines.tail hquotes.2
          refine ⟨inComment, fun ds => ?_⟩
          rw [scanFrom_of_lexeme p (hsame ds) ((hlexeme ds).trans hl),
            scanFrom_of_lexeme p hlength hl, List.dropLast_cons_of_ne_nil (scanFrom_ne_nil _ _ _),
            List.cons_append]
          exact congrArg _ (hrest ds)

/-! ## Comments -/

/-- A text inside a comment with blanks for all that the comment hides.  A backslash before a
    line feed carries the comment on to the next line. -/
def blankComment : List Char → List Char
  | [] => []
  | '\\' :: '\n' :: rest => ' ' :: '\n' :: blankComment rest
  | c :: rest => if c = '\n' then c :: rest else ' ' :: blankComment rest

theorem triviaLength_hidden {c : Char} {rest : List Char} (hc : c ≠ '\n')
    (h : ¬ (c = '\\' ∧ rest.head? = some '\n')) :
    triviaLength true (c :: rest) = triviaLength true rest + 1 := by
  rw [triviaLength_comment h, decide_eq_true hc]

theorem next_of_ne {c d : Char} (hc : c ≠ '\n') (hd : d ≠ '\n') (p : Position) :
    p.next c = p.next d := by
  rw [Position.next, Position.next, if_neg hc, if_neg hd]

theorem scanFrom_space {c : Char} (hc : isSpace c) (p : Position) (rest : List Char) :
    scanFrom 0 p (c :: rest) = scanFrom 0 (p.next c) rest := by
  have hslash : ¬ (c = '/' ∧ rest.head? = some '/') := by
    rintro ⟨rfl, -⟩
    exact absurd hc (by decide)
  have htrivia : triviaLength false (c :: rest) = triviaLength false rest + 1 := by
    rw [triviaLength_plain hslash, if_pos hc]
  rw [scanFrom_of_trivia p htrivia, scanFrom_trivia]

/-- Inside a comment a text has the tokens that it has with blanks for what the comment hides. -/
theorem scanFrom_blankComment (p : Position) (cs : List Char) :
    scanFrom (triviaLength true cs) p cs = scanFrom 0 p (blankComment cs) := by
  fun_induction blankComment cs generalizing p with
  | case1 => rfl
  | case2 rest ih =>
    have hblank : p.next ' ' = p.next '\\' := next_of_ne (by decide) (by decide) p
    rw [triviaLength, scanFrom_space rfl, hblank, scanFrom_space rfl]
    exact ih _
  | case3 rest hne =>
    rw [triviaLength_comment (by simp), scanFrom_space rfl, ← scanFrom_trivia (p.next '\n')]
    rfl
  | case4 c rest hne hc ih =>
    have hhead : ¬ (c = '\\' ∧ rest.head? = some '\n') := by
      rintro ⟨rfl, hhead⟩
      obtain ⟨more, hmore⟩ := List.head?_eq_some_iff.mp hhead
      exact hne more rfl hmore
    have hblank : p.next ' ' = p.next c := next_of_ne (by decide) hc p
    rw [triviaLength_hidden hc hhead, scanFrom_space rfl, hblank]
    exact ih _

/-- A comment without a line feed goes on behind its line if it ends in a backslash. -/
theorem triviaLength_commentLine {body : List Char} (hbody : '\n' ∉ body) (ds : List Char) :
    triviaLength true (body ++ '\n' :: ds) =
      body.length + 1 + triviaLength (body.getLast? = some '\\') ds := by
  induction body with
  | nil =>
    rw [List.nil_append, triviaLength_comment (by simp)]
    simp
    omega
  | cons c body ih =>
    rw [List.mem_cons, not_or] at hbody
    cases body with
    | nil =>
      by_cases hc : c = '\\'
      · subst hc
        rw [List.singleton_append, triviaLength]
        simp
        omega
      · rw [List.singleton_append, triviaLength_hidden (Ne.symm hbody.1) (fun h => hc h.1),
          triviaLength_comment (by simp)]
        simp [hc]
        omega
    | cons d body =>
      have hhead : ¬ (c = '\\' ∧ (d :: body ++ '\n' :: ds).head? = some '\n') := by
        rintro ⟨-, hhead⟩
        exact hbody.2 (List.mem_cons.mpr (.inl (Option.some.inj hhead).symm))
      rw [List.cons_append, triviaLength_hidden (Ne.symm hbody.1) hhead, ih hbody.2,
        List.getLast?_cons_cons]
      simp only [List.length_cons]
      omega

theorem after_next_feed {cs : List Char} (h : '\n' ∉ cs) (p : Position) :
    (p.after cs).next '\n' = p.next '\n' := by
  induction cs generalizing p with
  | nil => rfl
  | cons c cs ih =>
    rw [List.mem_cons, not_or] at h
    rw [Position.after_cons, ih h.2, Position.next, Position.next, Position.next,
      if_neg (Ne.symm h.1), if_pos rfl, if_pos rfl]

/-- Behind a comment line a text is scanned from the next line on, inside the comment if the
    line ends in a backslash. -/
theorem scanFrom_commentLine (inComment : Bool) (p : Position) {body : List Char}
    (hbody : '\n' ∉ body) (ds : List Char) :
    scanFrom (triviaLength inComment ('/' :: '/' :: (body ++ '\n' :: ds))) p
        ('/' :: '/' :: (body ++ '\n' :: ds)) =
      scanFrom (triviaLength (body.getLast? = some '\\') ds) (p.next '\n') ds := by
  have hlength : triviaLength inComment ('/' :: '/' :: (body ++ '\n' :: ds)) =
      ('/' :: '/' :: (body ++ ['\n'])).length + triviaLength (body.getLast? = some '\\') ds := by
    have hline := triviaLength_commentLine hbody ds
    cases inComment with
    | false =>
      rw [triviaLength, hline]
      simp
      omega
    | true =>
      rw [triviaLength_hidden (by decide) (by simp), triviaLength_hidden (by decide) (by simp),
        hline]
      simp
      omega
  have htext : '/' :: '/' :: (body ++ '\n' :: ds) = ('/' :: '/' :: (body ++ ['\n'])) ++ ds := by
    simp
  have hafter : p.after ('/' :: '/' :: (body ++ ['\n'])) = p.next '\n' := by
    have hnone : '\n' ∉ '/' :: '/' :: body := by simp [hbody]
    rw [← after_next_feed hnone p]
    simp
  rw [hlength, htext, scanFrom_append, hafter]

/-- Where white space or a comment goes on, a line feed is passed over and ends it. -/
theorem scanFrom_feed (inComment : Bool) (p : Position) (ds : List Char) :
    scanFrom (triviaLength inComment ('\n' :: ds)) p ('\n' :: ds) =
      scanFrom 0 (p.next '\n') ds := by
  have hlength : triviaLength inComment ('\n' :: ds) = triviaLength false ds + 1 := by
    cases inComment with
    | false => exact triviaLength_plain (by simp)
    | true => exact triviaLength_comment (by simp)
  rw [hlength]
  exact scanFrom_trivia (p.next '\n') ds

end Scanner

open Scanner

variable {source comment : String}

/-- Behind whole lines that hold no illegal token, a comment on a line of its own leaves the
    tokens of what follows as they are without it, with their positions, unless it ends in a
    backslash.  Then they are those that are left when the lines that the backslash carries it
    on to are blank. -/
theorem scan_comment (hlines : WholeLines source.toList)
    (hlegal : ∀ t ∈ scan source, t.kind ≠ .illegal) (hcomment : '\n' ∉ comment.toList)
    (next : String) :
    scan (source ++ "//" ++ comment ++ "\n" ++ next) =
      if comment.toList.getLast? = some '\\' then
        scan (source ++ "\n" ++ String.ofList (blankComment next.toList))
      else scan (source ++ "\n" ++ next) := by
  have hquotes : ∀ t ∈ scan source, ¬ IsOpenQuote t := fun t ht hquote => hlegal t ht hquote.1
  obtain ⟨inComment, hseam⟩ := scanFrom_lines (Nat.zero_le _) hlines hquotes
  have hwith : (source ++ "//" ++ comment ++ "\n" ++ next).toList =
      source.toList ++ '/' :: '/' :: (comment.toList ++ '\n' :: next.toList) := by
    simp [String.toList_append]
  have hwithout (text : String) : (source ++ "\n" ++ text).toList =
      source.toList ++ '\n' :: text.toList := by
    simp [String.toList_append]
  unfold scan
  rw [hwith, hseam, scanFrom_commentLine inComment _ hcomment]
  by_cases hlast : comment.toList.getLast? = some '\\'
  · rw [if_pos hlast, hwithout, hseam, scanFrom_feed, decide_eq_true hlast, scanFrom_blankComment,
      String.toList_ofList]
  · rw [if_neg hlast, hwithout, hseam, scanFrom_feed, decide_eq_false hlast, scanFrom_trivia]

/-- The backslash hides a binding, and the string literal before the comment spans two lines. -/
theorem scan_comment_backslash :
    let source := "\"a\nb\"; // c \\\n"
    WholeLines source.toList ∧ (∀ t ∈ scan source, t.kind ≠ .illegal) ∧
      scan (source ++ "//" ++ " \"d\\" ++ "\n" ++ "let x = 1;\nx") =
        scan (source ++ "\n" ++ "          \nx") := by
  intro source
  have hlast : source.toList.getLast? = some '\n' := by decide
  have hlines : WholeLines source.toList := fun c hc => Option.some.inj (hc.symm.trans hlast)
  have hlegal : ∀ t ∈ scan source, t.kind ≠ .illegal := by decide +kernel
  exact ⟨hlines, hlegal, scan_comment hlines hlegal (by decide) "let x = 1;\nx"⟩

end Monkey
