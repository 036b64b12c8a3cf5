import Monkey.Proofs.Token.Spelling

/-!
# Scanning line after line

A line feed between two texts keeps their tokens apart.  What is scanned of the first does
not change, unless it has an open string literal or ends in a backslash, and the second is
scanned as if it stood alone, from the next line on.
-/

namespace Monkey

namespace Scanner

/-! ## White space and comments -/

theorem triviaLength_comment {c : Char} {rest : List Char}
    (h : ¬ (c = '\\' ∧ rest.head? = some '\n')) :
    triviaLength true (c :: rest) = triviaLength (c ≠ '\n') rest + 1 := by
  generalize hcs : c :: rest = cs
  conv => lhs; unfold triviaLength
  split
  · cases hcs
  · cases hcs
    exact absurd ⟨rfl, rfl⟩ h
  · cases hcs
    rfl
  · contradiction
  · contradiction

theorem triviaLength_plain {c : Char} {rest : List Char}
    (h : ¬ (c = '/' ∧ rest.head? = some '/')) :
    triviaLength false (c :: rest) = if isSpace c then triviaLength false rest + 1 else 0 := by
  generalize hcs : c :: rest = cs
  conv => lhs; unfold triviaLength
  split
  · cases hcs
  · contradiction
  · contradiction
  · cases hcs
    exact absurd ⟨rfl, rfl⟩ h
  · cases hcs
    rfl

theorem triviaLength_le (inComment : Bool) (cs : List Char) :
    triviaLength inComment cs ≤ cs.length := by
  fun_induction triviaLength inComment cs <;> simp_all

/-- A text that ends in no backslash still does not without its first character. -/
theorem getLast?_tail_ne {c : Char} {cs : List Char} (h : (c :: cs).getLast? ≠ some '\\') :
    cs.getLast? ≠ some '\\' := by
  intro hcs
  apply h
  rw [List.getLast?_cons, hcs]
  rfl

theorem slashes_line {c : Char} {rest : List Char} (ds : List Char)
    (h : ∀ more, c = '/' → rest = '/' :: more → False) :
    ¬ (c = '/' ∧ (rest ++ '\n' :: ds).head? = some '/') := by
  rintro ⟨hc, hhead⟩
  cases rest with
  | nil => cases hhead
  | cons d more =>
    cases hhead
    exact h more hc rfl

/-- A line feed ends a comment, and what is white space up to it goes on behind it. -/
theorem triviaLength_line (inComment : Bool) (cs ds : List Char) (h : cs.getLast? ≠ some '\\') :
    triviaLength inComment (cs ++ '\n' :: ds) =
      if triviaLength inComment cs = cs.length then cs.length + 1 + triviaLength false ds
      else triviaLength inComment cs := by
  fun_induction triviaLength inComment cs with
  | case1 inComment =>
    have hline : triviaLength inComment ('\n' :: ds) = triviaLength false ds + 1 := by
      cases inComment with
      | false => exact triviaLength_plain (by simp)
      | true => exact triviaLength_comment (by simp)
    rw [List.nil_append, hline]
    simp
    omega
  | case2 rest ih =>
    have hrest := ih (getLast?_tail_ne (getLast?_tail_ne h))
    rw [List.cons_append, List.cons_append, triviaLength, hrest]
    simp only [List.length_cons]
    split <;> split <;> omega
  | case3 c rest hne ih =>
    have hhead : ¬ (c = '\\' ∧ (rest ++ '\n' :: ds).head? = some '\n') := by
      rintro ⟨rfl, hhead⟩
      cases rest with
      | nil => exact h rfl
      | cons d more =>
        cases hhead
        exact hne more rfl rfl
    rw [List.cons_append, triviaLength_comment hhead, ih (getLast?_tail_ne h)]
    simp only [List.length_cons]
    split <;> split <;> omega
  | case4 rest ih =>
    have hrest := ih (getLast?_tail_ne (getLast?_tail_ne h))
    rw [List.cons_append, List.cons_append, triviaLength, hrest]
    simp only [List.length_cons]
    split <;> split <;> omega
  | case5 c rest hne hspace ih =>
    rw [List.cons_append, triviaLength_plain (slashes_line ds hne), if_pos hspace,
      ih (getLast?_tail_ne h)]
    simp only [List.length_cons]
    split <;> split <;> omega
  | case6 c rest hne hspace =>
    rw [List.cons_append, triviaLength_plain (slashes_line ds hne), if_neg hspace]
    simp

/-! ## Lexemes -/

theorem stringBody?_append {cs body : List Char} (h : stringBody? cs = some body)
    (ds : List Char) : stringBody? (cs ++ ds) = some body := by
  fun_induction stringBody? cs generalizing body with
  | case1 | case3 => cases h
  | case4 => cases h
  | case2 => exact h
  | case5 c rest hc ih =>
    obtain ⟨more, hmore, rfl⟩ := Option.map_eq_some_iff.mp h
    rw [List.cons_append, List.cons_append, stringBody?_escape hc, ih hmore]
    rfl
  | case6 c rest hquote hsingle hescape ih =>
    have hslash : c ≠ '\\' := by
      intro hc
      cases rest with
      | nil => exact hsingle hc rfl
      | cons d more => exact hescape d more hc rfl
    obtain ⟨more, hmore, rfl⟩ := Option.map_eq_some_iff.mp h
    rw [List.cons_append, stringBody?_plain hslash hquote, ih hmore]
    rfl

theorem takeWhile_line {p : Char → Bool} (hp : p '\n' = false) (cs ds : List Char) :
    (cs ++ '\n' :: ds).takeWhile p = cs.takeWhile p := by
  rw [List.takeWhile_append, List.takeWhile_cons, hp]
  split
  · next h =>
    have hall := (List.takeWhile_prefix p).eq_of_length h
    rw [hall]
    simp
  · rfl

theorem symbol?_line (c : Char) (cs ds : List Char) :
    symbol? c (cs ++ '\n' :: ds) = symbol? c cs := by
  cases cs with
  | nil =>
    unfold symbol?
    split <;> simp_all
  | cons d cs =>
    unfold symbol?
    split <;> simp_all

/-- A string literal is open, and its quote is read as a character that has no meaning. -/
def IsOpenQuote (t : Token) : Prop := t.kind = .illegal ∧ t.literal = "\""

/-- What is read at a character does not depend on the next line. -/
theorem lexeme?_line {c : Char} {cs : List Char} (ds : List Char)
    (h : c = '"' → stringBody? cs ≠ none) : lexeme? c (cs ++ '\n' :: ds) = lexeme? c cs := by
  unfold lexeme?
  by_cases hc : c = '"'
  · obtain ⟨body, hbody⟩ := Option.ne_none_iff_exists'.mp (h hc)
    rw [if_pos hc, if_pos hc, hbody, stringBody?_append hbody]
  · rw [if_neg hc, if_neg hc, takeWhile_line (by decide), takeWhile_line (by decide),
      symbol?_line]

theorem stringBody?_length {cs body : List Char} (h : stringBody? cs = some body) :
    body.length + 1 ≤ cs.length := by
  fun_induction stringBody? cs generalizing body with
  | case1 | case3 => cases h
  | case4 => cases h
  | case2 =>
    cases h
    simp
  | case5 c rest hc ih =>
    obtain ⟨more, hmore, rfl⟩ := Option.map_eq_some_iff.mp h
    have hle := ih hmore
    simp only [List.length_cons]
    omega
  | case6 c rest hquote hsingle hescape ih =>
    obtain ⟨more, hmore, rfl⟩ := Option.map_eq_some_iff.mp h
    have hle := ih hmore
    simp only [List.length_cons]
    omega

theorem symbol?_more_le {c : Char} {cs : List Char} {kind : Kind} (h : symbol? c cs = some kind) :
    kind.name.length - 1 ≤ cs.length := by
  unfold symbol? at h
  split at h <;> cases h <;> first | exact Nat.succ_le_succ (Nat.zero_le _) | exact Nat.zero_le _

/-- A match ends where the text ends, or before. -/
theorem lexeme?_more_le {c : Char} {cs : List Char} {l : Lexeme} (h : lexeme? c cs = some l) :
    l.more ≤ cs.length := by
  unfold lexeme? at h
  split at h
  · split at h <;> cases h
    · next hbody => exact stringBody?_length hbody
    · exact Nat.zero_le _
  split at h
  · cases h
    exact (List.takeWhile_prefix _).length_le
  split at h
  · cases h
    exact (List.takeWhile_prefix _).length_le
  split at h
  · next hsymbol =>
    cases h
    exact symbol?_more_le hsymbol
  split at h <;> cases h
  exact Nat.zero_le _

/-! ## Tokens -/

section Steps

variable {c : Char} {rest : List Char} (p : Position)

theorem scanFrom_of_trivia {more : Nat} (h : triviaLength false (c :: rest) = more + 1) :
    scanFrom 0 p (c :: rest) = scanFrom more (p.next c) rest := by
  rw [scanFrom, h]

theorem scanFrom_of_lexeme {l : Lexeme} (h : triviaLength false (c :: rest) = 0)
    (hl : lexeme? c rest = some l) :
    scanFrom 0 p (c :: rest) =
      tokenAt p l.kind l.literal :: scanFrom l.more (p.next c) rest := by
  rw [scanFrom, h]
  simp only [hl]

theorem scanFrom_of_none (h : triviaLength false (c :: rest) = 0)
    (hl : lexeme? c rest = none) : scanFrom 0 p (c :: rest) = scanFrom 0 (p.next c) rest := by
  rw [scanFrom, h]
  simp only [hl]

end Steps

theorem scanFrom_append (cs ds : List Char) (passed : Nat) (p : Position) :
    scanFrom (cs.length + passed) p (cs ++ ds) = scanFrom passed (p.after cs) ds := by
  induction cs generalizing p with
  | nil => rw [List.length_nil, Nat.zero_add]; rfl
  | cons c cs ih =>
    rw [List.length_cons, Nat.succ_add]
    exact ih (p.next c)

/-- White space and comments in front hold no tokens. -/
theorem scanFrom_trivia (p : Position) (cs : List Char) :
    scanFrom (triviaLength false cs) p cs = scanFrom 0 p cs := by
  cases cs with
  | nil => rfl
  | cons c rest =>
    conv => rhs; rw [scanFrom]
    split
    · next more hmore =>
      rw [hmore]
      rfl
    · next hzero => rw [hzero, scanFrom, hzero]

/-- A quote that opens no string literal is read as a character that has no meaning. -/
theorem stringBody?_ne_none {p : Position} {c : Char} {rest : List Char}
    (htrivia : triviaLength false (c :: rest) = 0)
    (h : ∀ t ∈ scanFrom 0 p (c :: rest), ¬ IsOpenQuote t) :
    c = '"' → stringBody? rest ≠ none := by
  rintro rfl hnone
  have hl : lexeme? '"' rest = some ⟨.illegal, ['"'], 0⟩ := by
    unfold lexeme?
    rw [if_pos rfl, hnone]
  rw [scanFrom_of_lexeme p htrivia hl] at h
  exact h _ (List.mem_cons_self ..) ⟨rfl, rfl⟩

theorem scanFrom_ne_nil (passed : Nat) (p : Position) (cs : List Char) :
    scanFrom passed p cs ≠ [] := by
  obtain ⟨tokens, heq, -⟩ := scanFrom_eq passed p cs
  rw [heq]
  exact List.append_ne_nil_of_right_ne_nil _ (List.cons_ne_nil _ _)

/-- The tokens of two texts with a line feed between them are those of the first without its
    end, and then those of the second. -/
theorem scanFrom_line {passed : Nat} {p : Position} {cs : List Char} (ds : List Char)
    (hpassed : passed ≤ cs.length) (hlast : cs.getLast? ≠ some '\\')
    (hquotes : ∀ t ∈ scanFrom passed p cs, ¬ IsOpenQuote t) :
    scanFrom passed p (cs ++ '\n' :: ds) =
      (scanFrom passed p cs).dropLast ++ scanFrom 0 ((p.after cs).next '\n') ds := by
  have hfeed : triviaLength false ('\n' :: ds) = triviaLength false ds + 1 :=
    triviaLength_plain (by simp)
  induction cs generalizing passed p with
  | nil =>
    obtain rfl : passed = 0 := Nat.le_zero.mp hpassed
    rw [List.nil_append, scanFrom_of_trivia p hfeed]
    exact scanFrom_trivia _ ds
  | cons c rest ih =>
    have hrest := getLast?_tail_ne hlast
    cases passed with
    | succ passed => exact ih (Nat.le_of_succ_le_succ hpassed) hrest hquotes
    | zero =>
      have hline := triviaLength_line false (c :: rest) ds hlast
      rw [List.cons_append] at hline ⊢
      cases htrivia : triviaLength false (c :: rest) with
      | succ more =>
        have hmore : more + 1 ≤ rest.length + 1 := htrivia ▸ triviaLength_le false (c :: rest)
        rw [scanFrom_of_trivia p htrivia] at hquotes ⊢
        rw [Position.after_cons, ← ih (Nat.le_of_succ_le_succ hmore) hrest hquotes]
        rw [htrivia, List.length_cons] at hline
        by_cases hend : more = rest.length
        · -- The white space goes on behind the line feed.
          have hall : triviaLength false (c :: (rest ++ '\n' :: ds)) =
              rest.length + triviaLength false ('\n' :: ds) + 1 := by
            rw [hline, if_pos (by rw [hend]), hfeed]
            omega
          rw [scanFrom_of_trivia p hall, scanFrom_append, scanFrom_trivia, hend]
          exact (scanFrom_append rest ('\n' :: ds) 0 (p.next c)).symm
        · rw [if_neg (fun h => hend (Nat.succ_injective h))] at hline
          rw [scanFrom_of_trivia p hline]
      | zero =>
        rw [htrivia, List.length_cons, if_neg (Nat.succ_ne_zero _).symm] at hline
        have hlexeme := lexeme?_line ds (stringBody?_ne_none htrivia hquotes)
        cases hl : lexeme? c rest with
        | none =>
          rw [scanFrom_of_none p htrivia hl] at hquotes ⊢
          rw [scanFrom_of_none p hline (hlexeme.trans hl)]
          exact ih (Nat.zero_le _) hrest hquotes
        | some l =>
          rw [scanFrom_of_lexeme p htrivia hl, List.forall_mem_cons] at hquotes
          rw [scanFrom_of_lexeme p hline (hlexeme.trans hl), scanFrom_of_lexeme p htrivia hl,
            List.dropLast_cons_of_ne_nil (scanFrom_ne_nil _ _ _), List.cons_append]
          exact congrArg _ (ih (lexeme?_more_le hl) hrest hquotes.2)

end Scanner

open Scanner

variable {source : String}

theorem scan_line (next : String) (hlast : source.toList.getLast? ≠ some '\\')
    (hquotes : ∀ t ∈ scan source, ¬ IsOpenQuote t) :
    scan (source ++ "\n" ++ next) = (scan source).dropLast ++
      scanFrom 0 ((Position.start.after source.toList).next '\n') next.toList := by
  have htext : (source ++ "\n" ++ next).toList = source.toList ++ '\n' :: next.toList := by
    rw [String.toList_append, String.toList_append, List.append_assoc]
    rfl
  unfold scan at hquotes ⊢
  rw [htext]
  exact scanFrom_line next.toList (Nat.zero_le _) hlast hquotes

/-- The words of two texts with a line feed between them are those of the first and then those
    of the second. -/
theorem wordsOf_scan_line (next : String) (hlast : source.toList.getLast? ≠ some '\\')
    (hquotes : ∀ t ∈ scan source, ¬ IsOpenQuote t) :
    wordsOf (scan (source ++ "\n" ++ next)) =
      wordsOf (scan source) ++ wordsOf (scan next) := by
  obtain ⟨tokens, hscan, hspelt⟩ := scan_eq source
  have hnext : wordsOf (scanFrom 0 ((Position.start.after source.toList).next '\n') next.toList) =
      wordsOf (scan next) := wordsOf_scanFrom 0 _ next.toList
  rw [scan_line next hlast hquotes, wordsOf_scan hscan hspelt, hscan, List.dropLast_concat,
    wordsOf_append fun t ht => (hspelt t ht).ne_eof, hnext]

end Monkey
