import Mathlib.Data.List.Infix
import Monkey.Parser.Grammar
import Monkey.Runs

/-!
# Actions that only move forward

However an action of the parser ends, what is left of the tokens is a suffix of what was there,
and what is logged is logged on top of what was.  All rules are such actions, at every depth.
-/

namespace Monkey.Parser

/-- A state is behind another one: fewer tokens are left, and no more has been unlogged. -/
structure State.Onward (s t : State) : Prop where
  rest_suffix : t.rest <:+ s.rest
  log_suffix : s.log <:+ t.log

namespace State.Onward

variable {s t u : State}

protected theorem refl (s : State) : s.Onward s := ⟨List.suffix_refl _, List.suffix_refl _⟩

theorem trans (h : s.Onward t) (h' : t.Onward u) : s.Onward u :=
  ⟨h'.rest_suffix.trans h.rest_suffix, h.log_suffix.trans h'.log_suffix⟩

theorem advance (s : State) : s.Onward s.advance := ⟨List.tail_suffix _, List.suffix_refl _⟩

theorem note (s : State) (e : Event) : s.Onward (s.note e) :=
  ⟨List.suffix_refl _, List.suffix_cons _ _⟩

theorem length_le (h : s.Onward t) : t.rest.length ≤ s.rest.length := h.rest_suffix.length_le

end State.Onward

/-- An action that leaves a suffix of the tokens and adds to the log. -/
class Forward {α : Type} (x : Action α) : Prop where
  onward {s t : State} {a : α} : x s = .ok a t → s.Onward t
  onward_of_error {s t : State} {e : Failure} : x s = .error e t → s.Onward t

namespace Forward

variable {α β : Type}

instance (a : α) : Forward (pure a : Action α) where
  onward h := by cases h; exact .refl _
  onward_of_error h := by cases h

instance (e : Failure) : Forward (throw e : Action α) where
  onward h := by cases h
  onward_of_error h := by cases h; exact .refl _

instance (x : Action α) (f : α → Action β) [Forward x] [∀ a, Forward (f a)] :
    Forward (x >>= f) := by
  constructor
  case onward =>
    intro s u b hrun
    obtain ⟨a, t, hx, hf⟩ := exists_of_bind_ok hrun
    exact (onward hx).trans (onward hf)
  case onward_of_error =>
    intro s u e hrun
    rw [bind_run] at hrun
    split at hrun
    · next hx => exact (onward hx).trans (onward_of_error hrun)
    · next hx =>
      cases hrun
      exact onward_of_error hx

instance (c : Prop) [Decidable c] (x y : Action α) [Forward x] [Forward y] :
    Forward (if c then x else y) := by
  by_cases h : c
  · rw [if_pos h]; infer_instance
  · rw [if_neg h]; infer_instance

instance : Forward current where
  onward h := by cases h; exact .refl _
  onward_of_error h := by cases h

instance : Forward upcoming where
  onward h := by cases h; exact .refl _
  onward_of_error h := by cases h

instance : Forward advance where
  onward h := by cases h; exact .advance _
  onward_of_error h := by cases h

instance (rule : Rule) : Forward (begin rule) where
  onward h := by cases h; exact .note _ _
  onward_of_error h := by cases h

instance (cause : Cause) (token : Token) : Forward (fail cause token : Action α) where
  onward h := by cases h
  onward_of_error h := by cases h; exact .note _ _

instance (kind : Kind) : Forward (expect kind) := by
  unfold expect
  infer_instance

instance (kind : Kind) : Forward (skip kind) := by
  unfold skip
  infer_instance

instance : Forward currentName := by
  unfold currentName
  infer_instance

theorem current_bind {f : Token → Action β} (h : ∀ token, Forward (f token)) :
    Forward (current >>= f) := inferInstance

instance (x : Action Node) [Forward x] : Forward (attempt x) := by
  constructor
  all_goals
    intro s t _ hrun
    have hstart := State.Onward.note s (.attempted s.passed)
    unfold attempt at hrun
    split at hrun
  all_goals cases hrun
  · next hx => exact hstart.trans (onward hx)
  · next hx => exact (hstart.trans (onward_of_error hx)).trans (.note _ _)
  · next hx => exact hstart.trans (onward_of_error hx)

instance (token : Token) : Forward (integerLiteral token) := by
  unfold integerLiteral
  split <;> infer_instance

instance (depth : Nat) : Forward (moreParameters depth) := by
  induction depth with
  | zero => rw [moreParameters]; infer_instance
  | succ depth ih => rw [moreParameters]; infer_instance

instance (depth : Nat) : Forward (parameters depth) := by
  unfold parameters
  infer_instance

end Forward

/-- The rules only move forward at a given depth. -/
structure RulesForward (depth : Nat) : Prop where
  statements : ∀ inBlock, Forward (statements inBlock depth)
  statement : Forward (statement depth)
  block : Forward (block depth)
  expression : ∀ bound, Forward (expression depth bound)
  climb : ∀ bound left, Forward (climb depth bound left)
  operand : Forward (operand depth)
  extend : ∀ left, Forward (extend depth left)
  items : ∀ closing, Forward (items closing depth)
  moreItems : ∀ closing, Forward (moreItems closing depth)
  pairs : Forward (pairs depth)

set_option synthInstance.maxSize 2000 in
theorem rulesForward (depth : Nat) : RulesForward depth := by
  induction depth with
  | zero =>
    constructor
    all_goals
      intros
      exact (inferInstance : Forward (throw .dropped))
  | succ depth ih =>
    obtain ⟨_, _, _, _, _, _, _, _, _, _⟩ := ih
    constructor
    case statements => intro inBlock; rw [statements]; infer_instance
    case block => rw [block]; infer_instance
    case expression => intro bound; rw [expression]; infer_instance
    case climb => intro bound left; rw [climb]; infer_instance
    case items => intro closing; rw [items]; infer_instance
    case moreItems => intro closing; rw [moreItems]; infer_instance
    case pairs => rw [pairs]; dsimp only; infer_instance
    -- The rules that look at the kind of the current token.
    case statement =>
      rw [statement]
      exact .current_bind fun _ => by split <;> infer_instance
    case operand =>
      rw [operand]
      exact .current_bind fun _ => by split <;> infer_instance
    case extend =>
      intro left
      rw [extend]
      exact .current_bind fun _ => by split <;> infer_instance

section Rules

variable (depth : Nat)

instance (inBlock : Bool) : Forward (statements inBlock depth) :=
  (rulesForward depth).statements inBlock

instance : Forward (statement depth) := (rulesForward depth).statement

instance : Forward (block depth) := (rulesForward depth).block

instance (bound : Precedence) : Forward (expression depth bound) :=
  (rulesForward depth).expression bound

instance (bound : Precedence) (left : Node) : Forward (climb depth bound left) :=
  (rulesForward depth).climb bound left

instance : Forward (operand depth) := (rulesForward depth).operand

instance (left : Node) : Forward (extend depth left) := (rulesForward depth).extend left

instance (closing : Kind) : Forward (items closing depth) := (rulesForward depth).items closing

instance (closing : Kind) : Forward (moreItems closing depth) :=
  (rulesForward depth).moreItems closing

instance : Forward (pairs depth) := (rulesForward depth).pairs

end Rules

end Monkey.Parser
