import Mathlib.Data.BitVec
import Monkey.Proofs.Operator
import Monkey.Proofs.Parser.Writing
import Monkey.Proofs.Script

/-!
# Arithmetic

Expressions of integer literals, the minus sign and the four operators come to what they come to
over words of 64 bits.  Evaluation computes with one word after the other; without divisions that
is the same as to compute with numbers of any size and to wrap the result once.
-/

namespace Monkey

/-- The operators of arithmetic. -/
inductive Operation where
  | plus
  | minus
  | times
  | divide
deriving DecidableEq, Repr

namespace Operation

/-- The symbol of an operator. -/
def symbol : Operation → String
  | plus => "+"
  | minus => "-"
  | times => "*"
  | divide => "/"

/-- An operator on words.  Division is that of signed words, towards zero; there is none by
    zero. -/
def onWords : Operation → BitVec 64 → BitVec 64 → Option (BitVec 64)
  | plus, a, b => some (a + b)
  | minus, a, b => some (a - b)
  | times, a, b => some (a * b)
  | divide, a, b => if b = 0 then none else some (a.sdiv b)

/-- An operator on numbers of any size. -/
def onInts : Operation → Int → Int → Int
  | plus, a, b => a + b
  | minus, a, b => a - b
  | times, a, b => a * b
  | divide, a, b => a.tdiv b

theorem onWords_eq_none_iff {o : Operation} {a b : BitVec 64} :
    o.onWords a b = none ↔ o = divide ∧ b = 0 := by
  cases o <;> simp [onWords]

theorem onWords_ofInt {o : Operation} (ho : o ≠ divide) (a b : Int) :
    o.onWords (BitVec.ofInt 64 a) (BitVec.ofInt 64 b) = some (BitVec.ofInt 64 (o.onInts a b)) := by
  cases o with
  | plus => exact congrArg some (BitVec.ofInt_add ..).symm
  | minus =>
    refine congrArg some (BitVec.eq_of_toInt_eq ?_)
    rw [BitVec.toInt_sub, BitVec.toInt_ofInt, BitVec.toInt_ofInt, BitVec.toInt_ofInt, onInts,
      Int.sub_bmod_bmod, Int.bmod_sub_bmod]
  | times => exact congrArg some (BitVec.ofInt_mul ..).symm
  | divide => exact absurd rfl ho

end Operation

/-- An expression of arithmetic. -/
inductive Arithmetic where
  | literal (n : Nat)
  | negated (e : Arithmetic)
  | binary (e : Arithmetic) (o : Operation) (f : Arithmetic)
deriving DecidableEq, Repr

namespace Arithmetic

/-- The tree of an expression. -/
def node : Arithmetic → Node
  | literal n => .integer n none
  | negated e => .prefixed "-" e.node none
  | binary e o f => .binary e.node o.symbol f.node none

/-- The value of an expression over words of 64 bits.  There is none if a number is divided by
    zero. -/
def bits : Arithmetic → Option (BitVec 64)
  | literal n => some (BitVec.ofNat 64 n)
  | negated e => e.bits.map fun a => -a
  | binary e o f => e.bits.bind fun a => f.bits.bind fun b => o.onWords a b

/-- The value of an expression over numbers of any size. -/
def unbounded : Arithmetic → Int
  | literal n => n
  | negated e => -e.unbounded
  | binary e o f => o.onInts e.unbounded f.unbounded

/-- The expressions that an expression is made of, itself among them. -/
def parts : Arithmetic → List Arithmetic
  | literal n => [literal n]
  | negated e => negated e :: e.parts
  | binary e o f => binary e o f :: (e.parts ++ f.parts)

/-- Somewhere in an expression a number is divided by zero. -/
def DividesByZero (g : Arithmetic) : Prop :=
  ∃ e f, binary e .divide f ∈ g.parts ∧ (∃ a, e.bits = some a) ∧ f.bits = some 0

/-- No division stands in an expression. -/
def DivisionFree (g : Arithmetic) : Prop :=
  ∀ e f, binary e .divide f ∉ g.parts

theorem dividesByZero_negated {e : Arithmetic} :
    (negated e).DividesByZero ↔ e.DividesByZero := by
  simp [DividesByZero, parts]

theorem dividesByZero_binary {e f : Arithmetic} {o : Operation} :
    (binary e o f).DividesByZero ↔ (o = .divide ∧ (∃ a, e.bits = some a) ∧ f.bits = some 0) ∨
      e.DividesByZero ∨ f.DividesByZero := by
  unfold DividesByZero
  simp only [parts, List.mem_cons, List.mem_append, binary.injEq]
  constructor
  · rintro ⟨e', f', ⟨rfl, rfl, rfl⟩ | hmem | hmem, h⟩
    · exact .inl ⟨rfl, h⟩
    · exact .inr (.inl ⟨e', f', hmem, h⟩)
    · exact .inr (.inr ⟨e', f', hmem, h⟩)
  · rintro (⟨rfl, h⟩ | ⟨e', f', hmem, h⟩ | ⟨e', f', hmem, h⟩)
    · exact ⟨e, f, .inl ⟨rfl, rfl, rfl⟩, h⟩
    · exact ⟨e', f', .inr (.inl hmem), h⟩
    · exact ⟨e', f', .inr (.inr hmem), h⟩

/-- Only a division by zero leaves an expression without a value. -/
theorem bits_eq_none_iff (e : Arithmetic) : e.bits = none ↔ e.DividesByZero := by
  induction e with
  | literal n => simp [bits, DividesByZero, parts]
  | negated e ih => rw [dividesByZero_negated, ← ih, bits, Option.map_eq_none_iff]
  | binary e o f ihe ihf =>
    rw [dividesByZero_binary, ← ihe, ← ihf, bits]
    cases he : e.bits with
    | none => simp
    | some a =>
      cases hf : f.bits with
      | none => simp
      | some b => simp [Operation.onWords_eq_none_iff]

/-- Without divisions, words wrap the number that is computed without bounds. -/
theorem bits_of_divisionFree {e : Arithmetic} (h : e.DivisionFree) :
    e.bits = some (BitVec.ofInt 64 e.unbounded) := by
  induction e with
  | literal n => exact congrArg some (BitVec.ofInt_natCast 64 n).symm
  | negated e ih =>
    have he : e.DivisionFree := fun x y hmem => h x y (.tail _ hmem)
    rw [bits, ih he, unbounded, BitVec.ofInt_neg]
    rfl
  | binary e o f ihe ihf =>
    have ho : o ≠ .divide := fun ho => h e f (ho ▸ .head _)
    have he : e.DivisionFree := fun x y hmem => h x y (.tail _ (List.mem_append_left _ hmem))
    have hf : f.DivisionFree := fun x y hmem => h x y (.tail _ (List.mem_append_right _ hmem))
    rw [bits, ihe he, ihf hf]
    exact Operation.onWords_ofInt ho e.unbounded f.unbounded

/-- The least number negated, and divided by minus one, is the least number again. -/
example : let least := binary (negated (literal 9223372036854775807)) .minus (literal 1)
    (negated least).bits = least.bits ∧
      (binary least .divide (negated (literal 1))).bits = least.bits := by
  decide +kernel

/-! ## Evaluation -/

/-- A value stands for a word, and an error for there being none. -/
inductive StandsFor : Option (BitVec 64) → Value → Prop
  | word (a : BitVec 64) : StandsFor (some a) (.integer (.ofBitVec a))
  | divisionByZero (id : ObjectId) : StandsFor none (.error id Problem.divisionByZero.message)

theorem standsFor_strip {a : Option (BitVec 64)} {v : Value} :
    StandsFor a v.strip ↔ StandsFor a v := by
  cases v with
  | array | hash | function | returned => exact ⟨nofun, nofun⟩
  | _ => exact .rfl

theorem StandsFor.isReturned {a : Option (BitVec 64)} {v : Value} (h : StandsFor a v) :
    v.isReturned = false := by
  cases h <;> rfl

theorem StandsFor.error_iff {a : Option (BitVec 64)} {v : Value} (h : StandsFor a v) :
    (∃ id, v = .error id "division by zero") ↔ a = none := by
  cases h with
  | word a => exact ⟨nofun, nofun⟩
  | divisionByZero id => exact ⟨fun _ => rfl, fun _ => ⟨id, rfl⟩⟩

theorem StandsFor.exists_integer {a : BitVec 64} {v : Value} (h : StandsFor (some a) v) :
    ∃ n, v = .integer n ∧ n.toInt = a.toInt := by
  cases h with
  | word a => exact ⟨.ofBitVec a, rfl, rfl⟩

/-- Evaluation comes to a value of a kind, whatever the machine. -/
abbrev Yields (x : Run Value) (a : Option (BitVec 64)) : Prop := ComesTo x (StandsFor a)

theorem yields_raise : Yields Problem.divisionByZero.raise none :=
  fun m _ => ⟨trivial, .divisionByZero m.nextObject⟩

theorem yields_applyPrefix (a : BitVec 64) :
    Yields (Operator.applyPrefix "-" (.integer (.ofBitVec a))) (some (-a)) := by
  rw [Operator.applyPrefix_minus, ← Int64.ofBitVec_neg]
  exact .pure _ (.word (-a))

theorem yields_applyBinary (o : Operation) (a b : BitVec 64) :
    Yields (Operator.applyBinary o.symbol (.integer (.ofBitVec a)) (.integer (.ofBitVec b)))
      (o.onWords a b) := by
  show Yields (Operator.applyIntegers o.symbol (.ofBitVec a) (.ofBitVec b)) _
  cases o with
  | plus =>
    rw [Operation.symbol, Operator.applyIntegers_plus, ← Int64.ofBitVec_add]
    exact .pure _ (.word (a + b))
  | minus =>
    rw [Operation.symbol, Operator.applyIntegers_minus, ← Int64.ofBitVec_sub]
    exact .pure _ (.word (a - b))
  | times =>
    rw [Operation.symbol, Operator.applyIntegers_times, ← Int64.ofBitVec_mul]
    exact .pure _ (.word (a * b))
  | divide =>
    have hzero : Int64.ofBitVec b = 0 ↔ b = 0 := by
      rw [← Int64.toBitVec_inj]
      rfl
    rw [Operation.symbol, Operator.applyIntegers_divide, Operation.onWords]
    by_cases hb : b = 0
    · rw [if_pos hb, if_pos (hzero.mpr hb)]
      exact yields_raise
    · rw [if_neg hb, if_neg (mt hzero.mp hb)]
      exact .pure _ (.word (a.sdiv b))

/-- The value of an expression stands for its value over words, in every context. -/
theorem yields_eval (cx : EvalContext) (frame : FrameId) (e : Arithmetic) :
    Yields (Eval.eval cx frame e.node) e.bits := by
  induction e with
  | literal n =>
    have hword : Value.ofInt n = .integer (.ofBitVec (.ofNat 64 n)) :=
      Value.ofInt_eq_of_toInt (BitVec.toInt_ofNat n)
    rw [node, Eval.eval, hword]
    exact ComesTo.traced (.pure _ (.word (BitVec.ofNat 64 n)))
  | negated e ih =>
    rw [node, Eval.eval]
    refine ComesTo.traced (.bind ih fun v hv => ?_)
    rw [bits]
    generalize e.bits = a at hv
    cases hv with
    | word a => exact yields_applyPrefix a
    | divisionByZero id => exact .pure _ (.divisionByZero id)
  | binary e o f ihe ihf =>
    rw [node, Eval.eval]
    refine ComesTo.traced (.bind ihe fun v hv => ?_)
    rw [bits]
    generalize e.bits = a at hv
    cases hv with
    | divisionByZero id => exact .pure _ (.divisionByZero id)
    | word a =>
      refine .bind ihf fun w hw => ?_
      generalize f.bits = b at hw
      cases hw with
      | divisionByZero id => exact .pure _ (.divisionByZero id)
      | word b => exact yields_applyBinary o a b

theorem strip_node (e : Arithmetic) : e.node.strip = e.node := by
  induction e with
  | literal n => rfl
  | negated e ih => rw [node, Node.strip, ih]
  | binary e o f ihe ihf => rw [node, Node.strip, ihe, ihf]

/-- A statement that is an expression of arithmetic comes to the value of the expression, in
    every session and whatever tokens it is made of. -/
theorem evaluate_standsFor (s : Session) {ss : List Node} {e : Arithmetic}
    (h : Node.stripAll ss = [.exprStatement e.node none]) :
    ∃ v, (s.evaluate ss).1.outcome = .finished v ∧ StandsFor e.bits v := by
  have hbare : Node.stripAll ss = Node.stripAll [.exprStatement e.node none] := by
    rw [h, Node.stripAll, Node.strip, strip_node, Node.stripAll]
  refine s.evaluate_expression hbare (yields_eval · · e) (fun _ => StandsFor.isReturned) ?_
  intro v w hstrip hv
  exact standsFor_strip.mp (hstrip ▸ standsFor_strip.mpr hv)

open Grammar

/-- However an expression of arithmetic is written as a source text, with parentheses around what
    may have them and zeros in front of its literals, none of which has more than 4300 digits,
    running it gives an integer or the error for a division by zero.  It gives the error where a
    number is divided by zero, and otherwise the integer that words of 64 bits give, read as a
    signed number.  Without divisions, this is the number that is computed without bounds, wrapped
    once. -/
theorem run_arithmetic (s : Session) {source : String} {e : Arithmetic}
    (h : Written (.statements [.exprStatement e.node none]) (wordsOf (scan source))) :
    ∃ answer t v, s.run source = .ok (answer, t) ∧ answer.outcome = .finished v ∧
      ((∃ id, v = .error id "division by zero") ↔ e.DividesByZero) ∧
      (¬ e.DividesByZero →
        ∃ a n, e.bits = some a ∧ v = .integer n ∧ n.toInt = a.toInt) ∧
      (e.DivisionFree → ∃ n, v = .integer n ∧ n.toInt = e.unbounded.bmod Int64.size) := by
  have hderives := h.derived [] (.inl rfl)
  rw [List.append_nil] at hderives
  obtain ⟨p, hparse, herrors, hstrip⟩ := @Parser.run_of_derives (.ofSource source) _
    (eofLast_scan source) hderives
  have hrun := s.run_of_errors_eq_nil hparse herrors
  obtain ⟨v, hv, hstands⟩ := evaluate_standsFor s hstrip
  refine ⟨_, _, v, hrun, hv, ?_, ?_, ?_⟩
  · rw [hstands.error_iff, bits_eq_none_iff]
  · intro hdivides
    obtain ⟨a, ha⟩ := Option.ne_none_iff_exists'.mp (mt (bits_eq_none_iff e).mp hdivides)
    rw [ha] at hstands
    obtain ⟨n, hn, hvalue⟩ := hstands.exists_integer
    exact ⟨a, n, ha, hn, hvalue⟩
  · intro hfree
    rw [bits_of_divisionFree hfree] at hstands
    obtain ⟨n, hn, hvalue⟩ := hstands.exists_integer
    exact ⟨n, hn, hvalue.trans (BitVec.toInt_ofInt _)⟩

/-- The least number comes about by wrapping only; divided by minus one, it is itself again. -/
theorem run_arithmetic_least :
    let source := "(-9223372036854775807 - 1) / -1"
    let least := binary (negated (literal 9223372036854775807)) .minus (literal 1)
    let e := binary least .divide (negated (literal 1))
    Written (.statements [.exprStatement e.node none]) (wordsOf (scan source)) ∧
      ∃ answer t, (Session.start { callLimit := 100 }).run source = .ok (answer, t) ∧
        answer.outcome = .finished (.integer (-9223372036854775808)) := by
  intro source least e
  have hliteral (n : Nat) (h : (n : Int) ≤ Parser.greatestInteger) :
      Written (.bare (.integer n none)) [⟨.int, n.repr⟩] := .integer (spellsNumber_repr h) h
  have hnegated (n : Nat) (h : (n : Int) ≤ Parser.greatestInteger) :
      Written (.bare (negated (literal n)).node) _ :=
    .prefixed (.inr rfl) (.plain (hliteral n h) id)
  have hminus : IsBinary .minus := isBinary_of_binds (by decide) nofun nofun
  have hslash : IsBinary .slash := isBinary_of_binds (by decide) nofun nofun
  have hleast : Written (.bare least.node) _ :=
    .binary hminus (.plain (hnegated 9223372036854775807 (by decide)) id)
      (.plain (hliteral 1 (by decide)) id)
  have hwhole : Written (.bare e.node) _ :=
    .binary hslash (hleast.operand_of_bare _) (.plain (hnegated 1 (by decide)) id)
  obtain ⟨ws, hwords, hwritten⟩ : ∃ ws, wordsOf (scan source) = ws ∧
      Written (.statements [.exprStatement e.node none]) ws :=
    ⟨_, by decide, .lastStatement (.exprStatement (.plain hwhole id))⟩
  obtain ⟨answer, t, v, hrun, hv, -, hvalue, -⟩ :=
    run_arithmetic (.start { callLimit := 100 }) (hwords ▸ hwritten)
  have hbits : e.bits = some (BitVec.ofInt 64 (-9223372036854775808)) := by decide +kernel
  have hdivides : ¬ e.DividesByZero := by
    rw [← bits_eq_none_iff, hbits]
    nofun
  obtain ⟨a, n, ha, rfl, hn⟩ := hvalue hdivides
  rw [hbits] at ha
  obtain rfl := Option.some.inj ha
  have hleast : n = -9223372036854775808 := Int64.toInt_inj.mp (hn.trans (by decide))
  exact ⟨hwords ▸ hwritten, answer, t, hrun, hleast ▸ hv⟩

end Arithmetic

end Monkey
