import Monkey.Proofs.Eval.Halt
import Monkey.Proofs.Eval.Keeps

/-!
# Runs beside runs that may be broken off

A run of the machine that does what another run does which may be broken off: both come to
the same machine, and where the other run is broken off with a report, this one has a value
that stands for the report.
-/

namespace Monkey

variable {ε α β γ δ : Type}

/-- From every machine that meets a condition, a run ends as another one does, on the same
    machine, which meets the condition too.  Results are related to results and reports to
    results, and reasons to stop are the same and of a certain kind. -/
def Mirrors (inv : Machine → Prop) (stops : Stop → Prop) (report : ε → β → Prop)
    (result : α → β → Prop) (x : Run β) (y : EStateM (Halt ε) Machine α) : Prop :=
  ∀ m, inv m → match y m with
    | .ok a m' => inv m' ∧ ∃ b, x m = .ok b m' ∧ result a b
    | .error (.thrown e) m' => inv m' ∧ ∃ b, x m = .ok b m' ∧ report e b
    | .error (.stopped reason) m' => inv m' ∧ x m = .error reason m' ∧ stops reason

/-- The same result, which meets a condition. -/
def Same (post : α → Prop) (a b : α) : Prop := b = a ∧ post a

namespace Mirrors

variable {inv : Machine → Prop} {stops : Stop → Prop} {report : ε → β → Prop}
  {result : α → β → Prop}

protected theorem pure {a : α} {b : β} (h : result a b) :
    Mirrors inv stops report result (pure b) (pure a) :=
  fun _ hm => ⟨hm, b, rfl, h⟩

theorem thrown {e : ε} {b : β} (h : report e b) :
    Mirrors inv stops report result (pure b) (throw (.thrown e)) :=
  fun _ hm => ⟨hm, b, rfl, h⟩

theorem stop {reason : Stop} (h : stops reason) :
    Mirrors inv stops report result (throw reason) (throw (.stopped reason)) :=
  fun _ hm => ⟨hm, rfl, h⟩

/-- What follows a result does what follows it in the other run, and a value that stands for
    a report is handed on. -/
theorem bind {report' : ε → δ → Prop} {result' : γ → δ → Prop} {x : Run β}
    {y : EStateM (Halt ε) Machine α} {f : β → Run δ} {g : α → EStateM (Halt ε) Machine γ}
    (hx : Mirrors inv stops report result x y)
    (hreport : ∀ e b, report e b → Mirrors inv stops report' result' (f b) (throw (.thrown e)))
    (hresult : ∀ a b, result a b → Mirrors inv stops report' result' (f b) (g a)) :
    Mirrors inv stops report' result' (x >>= f) (y >>= g) := by
  intro m hm
  have hrun := hx m hm
  cases hy : y m with
  | ok a m' =>
    rw [hy] at hrun
    obtain ⟨hm', b, hb, hab⟩ := hrun
    rw [bind_run_ok hy, bind_run_ok hb]
    exact hresult a b hab m' hm'
  | error e m' =>
    rw [hy] at hrun
    rw [bind_run_error hy]
    cases e with
    | thrown e =>
      obtain ⟨hm', b, hb, heb⟩ := hrun
      rw [bind_run_ok hb]
      exact hreport e b heb m' hm'
    | stopped reason =>
      rw [bind_run_error hrun.2.1]
      exact ⟨hrun.1, rfl, hrun.2.2⟩

/-- A value that both runs check for an error before they go on. -/
theorem checked_bind {report' : ε → δ → Prop} {result' : γ → δ → Prop} {post : Value → Prop}
    {x : Run Value} {y : EStateM (Halt ε) Machine Value} {f : Value → Run δ}
    {g : Value → EStateM (Halt ε) Machine γ} {handed : Value → γ} {handed' : Value → δ}
    (hx : Mirrors inv stops (fun _ _ => False) (Same post) x y)
    (herror : ∀ v, v.isError → result' (handed v) (handed' v))
    (hf : ∀ v, post v → ¬ v.isError → Mirrors inv stops report' result' (f v) (g v)) :
    Mirrors inv stops report' result'
      (x >>= fun v => if v.isError then pure (handed' v) else f v)
      (y >>= fun v => if v.isError then pure (handed v) else g v) := by
  refine bind hx (fun _ _ h => h.elim) ?_
  rintro _ v ⟨rfl, hv⟩
  by_cases he : v.isError
  · rw [if_pos he, if_pos he]
    exact Mirrors.pure (herror v he)
  · rw [if_neg he, if_neg he]
    exact hf v hv he

/-- A step of the machine that both runs take. -/
theorem step_bind {x : Run γ} {f : γ → Run β} {g : γ → EStateM (Halt ε) Machine α}
    {mid : γ → Prop} (hx : Ensures inv stops x mid)
    (hf : ∀ c, mid c → Mirrors inv stops report result (f c) (g c)) :
    Mirrors inv stops report result (x >>= f) (Halt.step x >>= g) := by
  intro m hm
  have hrun := hx m hm
  cases h : x m with
  | ok c m' =>
    rw [h] at hrun
    rw [bind_run_ok h, bind_run_ok (Halt.step_run_ok h)]
    exact hf c hrun.2 m' hrun.1
  | error reason m' =>
    rw [h] at hrun
    rw [bind_run_error h, bind_run_error (Halt.step_run_error h)]
    exact ⟨hrun.1, rfl, hrun.2⟩

/-- A last step of the machine. -/
theorem step {x : Run β} {result : β → β → Prop} {post : β → Prop}
    (hx : Ensures inv stops x post) (h : ∀ b, post b → result b b) :
    Mirrors inv stops report result x (Halt.step x) := by
  have hstep : Mirrors inv stops report result (x >>= pure) (Halt.step x >>= pure) :=
    step_bind hx fun b hb => Mirrors.pure (h b hb)
  rwa [bind_pure, bind_pure] at hstep

theorem ite {c : Prop} [Decidable c] {x x' : Run β} {y y' : EStateM (Halt ε) Machine α}
    (h : c → Mirrors inv stops report result x y)
    (h' : ¬ c → Mirrors inv stops report result x' y') :
    Mirrors inv stops report result (if c then x else x') (if c then y else y') := by
  by_cases hc : c
  · rw [if_pos hc, if_pos hc]
    exact h hc
  · rw [if_neg hc, if_neg hc]
    exact h' hc

theorem mono {report' : ε → β → Prop} {result' : α → β → Prop} {x : Run β}
    {y : EStateM (Halt ε) Machine α} (hx : Mirrors inv stops report result x y)
    (hreport : ∀ e b, report e b → report' e b) (hresult : ∀ a b, result a b → result' a b) :
    Mirrors inv stops report' result' x y := by
  intro m hm
  have hrun := hx m hm
  split at hrun
  · obtain ⟨hm', b, hb, hab⟩ := hrun
    exact ⟨hm', b, hb, hresult _ _ hab⟩
  · obtain ⟨hm', b, hb, heb⟩ := hrun
    exact ⟨hm', b, hb, hreport _ _ heb⟩
  · exact hrun

end Mirrors

end Monkey
