import Monkey.Machine
import Monkey.Runs

/-!
# Runs that may be broken off

Runs of the machine that end early with something to report, besides stopping.
-/

namespace Monkey

/-- Why a run that may be broken off gives no result. -/
inductive Halt (ε : Type) where
  /-- The machine stops. -/
  | stopped (reason : Stop)
  /-- The run is broken off. -/
  | thrown (report : ε)

namespace Halt

variable {ε α : Type}

/-- The machine has stopped, and the run was not broken off. -/
def IsStop : Halt ε → Prop
  | stopped _ => True
  | thrown _ => False

/-- A step of the machine within a run that may be broken off. -/
def step (x : Run α) : EStateM (Halt ε) Machine α := fun m =>
  match x m with
  | .ok a m => .ok a m
  | .error reason m => .error (.stopped reason) m

theorem step_run_ok {x : Run α} {m m' : Machine} {a : α} (h : x m = .ok a m') :
    (step x : EStateM (Halt ε) Machine α) m = .ok a m' := by
  rw [step, h]

theorem step_run_error {x : Run α} {m m' : Machine} {reason : Stop}
    (h : x m = .error reason m') :
    (step x : EStateM (Halt ε) Machine α) m = .error (.stopped reason) m' := by
  rw [step, h]

end Halt

end Monkey
