import Monkey.Proofs.Parser.Lawful

/-!
# The cursor

The words that a state of the parser has before it, up to the end of the input.
-/

namespace Monkey

namespace Parser

namespace State

/-- The words from the current one on. -/
def words (s : State) : List Word := wordsOf s.rest

/-- The words after the current one. -/
def ahead (s : State) : List Word := wordsOf s.rest.tail

theorem words_eq_cons {s : State} (h : s.current.kind ≠ .eof) :
    s.words = s.current.word :: s.ahead := by
  rw [words, rest_eq_cons h, wordsOf_cons h]
  rfl

theorem words_of_current {s : State} {kind : Kind} (h : s.current.kind = kind)
    (hne : kind ≠ .eof) : s.words = ⟨kind, s.current.literal⟩ :: s.ahead := by
  rw [words_eq_cons (by rwa [h]), ← h]
  rfl

theorem words_eq_nil {s : State} (h : s.current.kind = .eof) : s.words = [] := by
  cases hrest : s.rest with
  | nil => rw [words, hrest]; rfl
  | cons t ts =>
    have hcur : s.current = t := by simp [current, hrest]
    rw [hcur] at h
    rw [words, hrest, wordsOf_cons_eof h]

theorem ahead_eq_cons {s : State} (h : s.upcoming.kind ≠ .eof) :
    s.ahead = s.upcoming.word :: s.advance.ahead :=
  words_eq_cons (s := s.advance) h

theorem ahead_of_upcoming {s : State} {kind : Kind} (h : s.upcoming.kind = kind)
    (hne : kind ≠ .eof) : s.ahead = ⟨kind, s.upcoming.literal⟩ :: s.advance.ahead :=
  words_of_current (s := s.advance) h hne

theorem ahead_eq_nil {s : State} (h : s.upcoming.kind = .eof) : s.ahead = [] :=
  words_eq_nil (s := s.advance) h

theorem ahead_eq_nil_of_eof {s : State} (hlast : EofLast s.rest) (h : s.current.kind = .eof) :
    s.ahead = [] := by
  cases hrest : s.rest with
  | nil => rw [ahead, hrest]; rfl
  | cons t ts =>
    have hcur : s.current = t := by simp [current, hrest]
    rw [hcur] at h
    have hts : ts = [] := hlast [] t ts hrest h
    rw [ahead, hrest, List.tail_cons, hts]
    rfl

/-- What holds of the next token holds of the next word. -/
theorem next_ahead {s : State} {p : Kind → Prop} (h : p s.upcoming.kind) :
    Grammar.Next p s.ahead := by
  by_cases heof : s.upcoming.kind = .eof
  · rw [ahead_eq_nil heof]
    intro w hw
    simp at hw
  · rw [ahead_eq_cons heof]
    intro w hw
    simp only [List.head?_cons, Option.mem_def, Option.some.injEq] at hw
    rw [← hw]
    exact h

theorem current_of_words {s : State} {kind : Kind} {l : String} {j : List Word}
    (h : s.words = ⟨kind, l⟩ :: j) :
    s.current.kind = kind ∧ s.current.literal = l ∧ s.ahead = j := by
  have hne : s.current.kind ≠ .eof := by
    intro heof
    rw [words_eq_nil heof] at h
    cases h
  rw [words_eq_cons hne] at h
  cases h
  exact ⟨rfl, rfl, rfl⟩

theorem upcoming_of_ahead {s : State} {kind : Kind} {l : String} {j : List Word}
    (h : s.ahead = ⟨kind, l⟩ :: j) :
    s.upcoming.kind = kind ∧ s.upcoming.literal = l ∧ s.advance.ahead = j :=
  current_of_words (s := s.advance) h

theorem current_eof_of_words {s : State} (h : s.words = []) : s.current.kind = .eof := by
  by_contra hne
  rw [words_eq_cons hne] at h
  cases h

/-- What holds of the next word, and of the end of the input, holds of the next token. -/
theorem upcoming_of_next {s : State} {p : Kind → Prop} (h : Grammar.Next p s.ahead)
    (heof : p .eof) : p s.upcoming.kind := by
  by_cases hup : s.upcoming.kind = .eof
  · rwa [hup]
  · rw [ahead_eq_cons hup] at h
    exact h _ rfl

end State

end Parser

end Monkey
