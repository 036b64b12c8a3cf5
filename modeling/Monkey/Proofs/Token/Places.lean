import Mathlib.Data.Int.Order.Basic
import Mathlib.Data.Prod.Lex
import Monkey.Proofs.Token.Scan

/-!
# Tokens in order

The tokens of a source text start at places that come one after the other: further down, or on
the same line and further right.  So a token is known by its place.
-/

namespace Monkey

/-- Where a token starts, in reading order. -/
def Token.place (t : Token) : ℤ ×ₗ ℤ := toLex (t.line, t.column)

/-- A place in a source text, in reading order. -/
def Position.place (p : Position) : ℤ ×ₗ ℤ := toLex ((p.line : ℤ), (p.column : ℤ))

theorem Position.place_lt_next (p : Position) (c : Char) : p.place < (p.next c).place := by
  unfold Position.next Position.place
  rw [Prod.Lex.toLex_lt_toLex]
  split
  · exact .inl (Int.ofNat_lt.mpr (Nat.lt_succ_self p.line))
  · exact .inr ⟨rfl, Int.ofNat_lt.mpr (Nat.lt_succ_self p.column)⟩

namespace Scanner

theorem place_tokenAt (p : Position) (kind : Kind) (literal : List Char) :
    (tokenAt p kind literal).place = p.place := rfl

/-- The tokens of a text that stands at a place start there or later, one after the other. -/
theorem scanFrom_inOrder (passed : Nat) (p : Position) (cs : List Char) :
    (∀ t ∈ scanFrom passed p cs, p.place ≤ t.place) ∧
      (scanFrom passed p cs).Pairwise fun t u => t.place < u.place := by
  induction cs generalizing passed p with
  | nil => cases passed <;> simp [scanFrom, place_tokenAt]
  | cons c rest ih =>
    have hnext (passed : Nat) : ∀ t ∈ scanFrom passed (p.next c) rest, p.place < t.place :=
      fun t ht => (p.place_lt_next c).trans_le ((ih passed _).1 t ht)
    have hrest (passed : Nat) :
        (∀ t ∈ scanFrom passed (p.next c) rest, p.place ≤ t.place) ∧
          (scanFrom passed (p.next c) rest).Pairwise fun t u => t.place < u.place :=
      ⟨fun t ht => (hnext passed t ht).le, (ih passed _).2⟩
    cases passed with
    | succ passed => exact hrest passed
    | zero =>
      rw [scanFrom]
      split
      · exact hrest _
      · split
        · simp only [List.forall_mem_cons, List.pairwise_cons, place_tokenAt]
          exact ⟨⟨le_rfl, (hrest _).1⟩, hnext _, (hrest _).2⟩
        · exact hrest _

end Scanner

/-- The tokens of a source text are in order. -/
theorem scan_inOrder (source : String) :
    (scan source).Pairwise fun t u => t.place < u.place :=
  (Scanner.scanFrom_inOrder 0 Position.start source.toList).2

theorem nodup_scan (source : String) : (scan source).Nodup := by
  refine (scan_inOrder source).imp ?_
  rintro t u hlt rfl
  exact lt_irrefl _ hlt

end Monkey
