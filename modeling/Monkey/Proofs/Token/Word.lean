import Monkey.Token.Basic

/-!
# Words

Tokens without their positions, up to the end of the input.
-/

namespace Monkey

/-- What the grammar sees of a token. -/
structure Word where
  kind : Kind
  literal : String
deriving DecidableEq, Repr

/-- The word of a token. -/
def Token.word (t : Token) : Word := ⟨t.kind, t.literal⟩

/-- The words of tokens up to the end of the input. -/
def wordsOf (ts : List Token) : List Word :=
  (ts.takeWhile fun t => t.kind ≠ .eof).map Token.word

theorem wordsOf_cons {t : Token} (h : t.kind ≠ .eof) (ts : List Token) :
    wordsOf (t :: ts) = t.word :: wordsOf ts := by
  simp [wordsOf, h]

theorem wordsOf_cons_eof {t : Token} (h : t.kind = .eof) (ts : List Token) :
    wordsOf (t :: ts) = [] := by
  simp [wordsOf, h]

theorem wordsOf_append {ts : List Token} (h : ∀ t ∈ ts, t.kind ≠ .eof) (us : List Token) :
    wordsOf (ts ++ us) = ts.map Token.word ++ wordsOf us := by
  induction ts with
  | nil => rfl
  | cons t ts ih =>
    rw [List.forall_mem_cons] at h
    rw [List.cons_append, wordsOf_cons h.1, ih h.2, List.map_cons, List.cons_append]

/-- Nothing follows the end of the input. -/
def EofLast (ts : List Token) : Prop :=
  ∀ pre t post, ts = pre ++ t :: post → t.kind = .eof → post = []

theorem EofLast.suffix {ts us : List Token} (h : EofLast ts) (hs : us <:+ ts) : EofLast us := by
  obtain ⟨front, rfl⟩ := hs
  intro pre t post hus ht
  exact h (front ++ pre) t post (by rw [hus, List.append_assoc]) ht

theorem eofLast_append {ts : List Token} (h : ∀ t ∈ ts, t.kind ≠ .eof) (last : Token) :
    EofLast (ts ++ [last]) := by
  intro pre t post hsplit ht
  rcases List.append_eq_append_iff.mp hsplit with ⟨front, -, hback⟩ | ⟨front, hfront, hback⟩
  · have hlength := congrArg List.length hback
    simp only [List.length_append, List.length_cons, List.length_nil] at hlength
    exact List.eq_nil_of_length_eq_zero (by omega)
  · cases front with
    | nil =>
      have hlength := congrArg List.length hback
      simp only [List.nil_append, List.length_cons, List.length_nil] at hlength
      exact List.eq_nil_of_length_eq_zero (by omega)
    | cons u front =>
      cases hback
      exact absurd ht (h t (by simp [hfront]))

end Monkey
