import Mathlib.Logic.Function.Basic
import Monkey.Value.Basic

/-!
# Hashes of near sequences

A step of the hash can be undone by whoever knows the byte, so bytes in common at the end of two
sequences neither join nor separate their hashes.  From one hash, different bytes lead to
different hashes.  Hence sequences that differ in a single byte have different hashes, and strings
whose encodings differ in a single byte are different keys.
-/

namespace Monkey

/-! ## Sequences that differ in one position -/

/-- Two sequences have one length and differ in exactly one position. -/
structure DifferOnce {α : Type} (a b : List α) : Prop where
  length_eq : a.length = b.length
  once : ∃! i : Nat, a[i]? ≠ b[i]?

namespace DifferOnce

variable {α : Type} {a b : List α}

/-- Around the position in which they differ, the sequences are the same. -/
theorem exists_eq_append (h : DifferOnce a b) :
    ∃ front x y back, x ≠ y ∧ a = front ++ x :: back ∧ b = front ++ y :: back := by
  obtain ⟨hlength, i, hdiffer, honly⟩ := h
  have hsame : ∀ j, j ≠ i → a[j]? = b[j]? := fun j hj => by_contra fun h => hj (honly j h)
  have ha : i < a.length := by
    by_contra hle
    rw [Nat.not_lt] at hle
    exact hdiffer ((List.getElem?_eq_none hle).trans (List.getElem?_eq_none (hlength ▸ hle)).symm)
  have hb : i < b.length := hlength ▸ ha
  rw [List.getElem?_eq_getElem ha, List.getElem?_eq_getElem hb] at hdiffer
  have hfront : a.take i = b.take i := by
    apply List.ext_getElem?
    intro j
    rw [List.getElem?_take, List.getElem?_take]
    split
    · next hj => exact hsame j (Nat.ne_of_lt hj)
    · rfl
  have hback : a.drop (i + 1) = b.drop (i + 1) := by
    apply List.ext_getElem?
    intro j
    rw [List.getElem?_drop, List.getElem?_drop]
    exact hsame (i + 1 + j) (by omega)
  refine ⟨a.take i, a[i], b[i], a.drop (i + 1), fun h => hdiffer (congrArg some h), ?_, ?_⟩
  · rw [List.getElem_cons_drop, List.take_append_drop]
  · rw [hfront, hback, List.getElem_cons_drop, List.take_append_drop]

theorem of_append {x y : α} (hne : x ≠ y) (front back : List α) :
    DifferOnce (front ++ x :: back) (front ++ y :: back) := by
  refine ⟨by simp, front.length, by simpa using hne, fun j hdiffer => ?_⟩
  by_contra hj
  apply hdiffer
  obtain hlt | hlt := Nat.lt_or_gt_of_ne hj
  · rw [List.getElem?_append_left hlt, List.getElem?_append_left hlt]
  · obtain ⟨k, rfl⟩ := Nat.exists_eq_add_of_lt hlt
    rw [Nat.add_assoc, List.getElem?_append_right (Nat.le_add_right ..),
      List.getElem?_append_right (Nat.le_add_right ..), Nat.add_sub_cancel_left,
      List.getElem?_cons_succ, List.getElem?_cons_succ]

end DifferOnce

namespace Fnv

/-! ## Undoing steps -/

/-- The inverse of the factor of a step, modulo `2 ^ 64`. -/
def primeInverse : UInt64 := 0xce965057aff6957b

/-- The hash before its last byte. -/
def unstep (h : UInt64) (b : UInt8) : UInt64 :=
  (h * primeInverse) ^^^ b.toUInt64

/-- The hash before its last bytes; the last of all is undone first. -/
def retract (h : UInt64) (bytes : List UInt8) : UInt64 :=
  bytes.foldr (fun b h => unstep h b) h

theorem prime_mul_primeInverse : prime * primeInverse = 1 := by decide

theorem mul_prime_mul_primeInverse (h : UInt64) : h * prime * primeInverse = h := by
  rw [UInt64.mul_assoc, prime_mul_primeInverse, UInt64.mul_one]

theorem mul_primeInverse_mul_prime (h : UInt64) : h * primeInverse * prime = h := by
  rw [UInt64.mul_assoc, UInt64.mul_comm primeInverse, prime_mul_primeInverse, UInt64.mul_one]

theorem xor_xor_cancel (h x : UInt64) : h ^^^ x ^^^ x = h := by
  rw [UInt64.xor_assoc, UInt64.xor_self, UInt64.xor_zero]

theorem unstep_step (h : UInt64) (b : UInt8) : unstep (step h b) b = h := by
  unfold unstep step
  rw [mul_prime_mul_primeInverse, xor_xor_cancel]

theorem step_unstep (h : UInt64) (b : UInt8) : step (unstep h b) b = h := by
  unfold unstep step
  rw [xor_xor_cancel, mul_primeInverse_mul_prime]

theorem retract_extend (h : UInt64) (bytes : List UInt8) :
    retract (extend h bytes) bytes = h := by
  induction bytes generalizing h with
  | nil => rfl
  | cons b rest ih =>
    calc retract (extend h (b :: rest)) (b :: rest)
        = unstep (retract (extend (step h b) rest) rest) b := rfl
      _ = unstep (step h b) b := by rw [ih]
      _ = h := unstep_step h b

theorem extend_retract (h : UInt64) (bytes : List UInt8) :
    extend (retract h bytes) bytes = h := by
  induction bytes with
  | nil => rfl
  | cons b rest ih =>
    calc extend (retract h (b :: rest)) (b :: rest)
        = extend (step (unstep (retract h rest) b) b) rest := rfl
      _ = extend (retract h rest) rest := by rw [step_unstep]
      _ = h := ih

/-- Given bytes lead to every hash, and to each from exactly one. -/
theorem extend_bijective (bytes : List UInt8) : Function.Bijective fun h => extend h bytes :=
  Function.bijective_iff_has_inverse.mpr
    ⟨fun h => retract h bytes, fun h => retract_extend h bytes, fun h => extend_retract h bytes⟩

theorem extend_left_inj {g h : UInt64} (bytes : List UInt8) :
    extend g bytes = extend h bytes ↔ g = h :=
  (extend_bijective bytes).injective.eq_iff

/-- From one hash, different bytes lead to different hashes. -/
theorem step_right_inj {h : UInt64} {x y : UInt8} : step h x = step h y ↔ x = y := by
  refine ⟨fun heq => ?_, congrArg (step h)⟩
  have hxor : h ^^^ x.toUInt64 = h ^^^ y.toUInt64 := by
    rw [← mul_prime_mul_primeInverse (h ^^^ x.toUInt64),
      ← mul_prime_mul_primeInverse (h ^^^ y.toUInt64)]
    exact congrArg (· * primeInverse) heq
  exact UInt8.toUInt64_inj.mp ((UInt64.xor_right_inj h).mp hxor)

/-! ## Hashes -/

theorem hash_append (a b : List UInt8) : hash (a ++ b) = extend (hash a) b :=
  extend_append offsetBasis a b

/-- Bytes in common at the end neither join hashes nor separate them. -/
theorem hash_append_right_inj {a b : List UInt8} (s : List UInt8) :
    hash (a ++ s) = hash (b ++ s) ↔ hash a = hash b := by
  rw [hash_append, hash_append, extend_left_inj]

theorem hash_ne_of_differOnce {a b : List UInt8} (h : DifferOnce a b) : hash a ≠ hash b := by
  obtain ⟨front, x, y, back, hne, rfl, rfl⟩ := h.exists_eq_append
  rw [hash_append, hash_append]
  intro heq
  -- What follows the two bytes is undone, and the bytes are left as the last ones.
  have hstep : step (hash front) x = step (hash front) y := (extend_left_inj back).mp heq
  exact hne (step_right_inj.mp hstep)

end Fnv

/-! ## Keys -/

theorem Value.hashKey_string {surrogate? : Text.Surrogates} {s : String} {bytes : List UInt8}
    (h : Text.encodeUtf8 surrogate? s = .ok bytes) :
    (string s).hashKey surrogate? = .ok ⟨.string, Fnv.hash bytes⟩ := by
  rw [hashKey, h]

theorem Value.hashKey_string_ne {surrogate? : Text.Surrogates} {s t : String}
    {a b : List UInt8} (hs : Text.encodeUtf8 surrogate? s = .ok a)
    (ht : Text.encodeUtf8 surrogate? t = .ok b) (h : DifferOnce a b) :
    ∃ j k, (string s).hashKey surrogate? = .ok j ∧ (string t).hashKey surrogate? = .ok k ∧
      j ≠ k := by
  refine ⟨_, _, hashKey_string hs, hashKey_string ht, fun heq => ?_⟩
  exact Fnv.hash_ne_of_differOnce h (congrArg HashKey.code heq)

namespace Fnv

/-- Sequences of bytes that differ in exactly one position have different hashes.  What follows
    two sequences changes nothing about whether their hashes are the same.  Strings whose
    encodings differ in exactly one byte have different keys. -/
theorem hash_separates :
    (∀ a b : List UInt8, DifferOnce a b → hash a ≠ hash b) ∧
    (∀ p a b s : List UInt8,
      hash (p ++ a ++ s) = hash (p ++ b ++ s) ↔ hash (p ++ a) = hash (p ++ b)) ∧
    ∀ (surrogate? : Text.Surrogates) (s t : String) (a b : List UInt8),
      Text.encodeUtf8 surrogate? s = .ok a → Text.encodeUtf8 surrogate? t = .ok b →
      DifferOnce a b →
      ∃ j k, (Value.string s).hashKey surrogate? = .ok j ∧
        (Value.string t).hashKey surrogate? = .ok k ∧ j ≠ k :=
  ⟨fun _ _ => hash_ne_of_differOnce, fun _ _ _ => hash_append_right_inj,
    fun _ _ _ _ _ => Value.hashKey_string_ne⟩

/-- The one byte may be the second of a character of two bytes, in the middle of the encoding. -/
theorem hash_separates_accent :
    let a := "l'été".toUTF8.data.toList
    let b := "l'êté".toUTF8.data.toList
    DifferOnce a b ∧ hash a ≠ hash b ∧
      ∃ j k, (Value.string "l'été").hashKey (fun _ => none) = .ok j ∧
        (Value.string "l'êté").hashKey (fun _ => none) = .ok k ∧ j ≠ k := by
  intro a b
  have h : DifferOnce a b :=
    .of_append (by decide : (0xA9 : UInt8) ≠ 0xAA) [0x6C, 0x27, 0xC3] [0x74, 0xC3, 0xA9]
  exact ⟨h, hash_separates.1 a b h, hash_separates.2.2 _ _ _ a b rfl rfl h⟩

end Fnv

end Monkey
