import Mathlib.Order.Defs.PartialOrder
import Monkey.Eval.Basic
import Monkey.Proofs.Value.Kinship
import Monkey.Runs

/-!
# Laws of evaluation

A law says what two runs have in common as long as their machines stand in some relation, which
may change with what there is on the machines.  It has to be shown only of the steps of a machine:
runs that are put together of steps that obey it obey it.  Evaluation is put together of them, so
what a law says holds of the evaluation of every tree.
-/

namespace Monkey

/-! ## Comparisons -/

/-- How two machines are compared while runs go on beside one another.  A world says what there is
    on the machines, and only grows.  Where the first run stops for a reason that is excused, the
    second may do anything.  Something may be known besides of the first run alone. -/
structure Comparison where
  World : Type
  order : Preorder World
  machines : World → Machine → Machine → Prop
  excused : Stop → Prop
  known : {α : Type} → Run α → Machine → Prop
  known_pure : ∀ {α : Type} (a : α) (m : Machine), known (pure a : Run α) m
  known_throw : ∀ {α : Type} (reason : Stop) (m : Machine), known (throw reason : Run α) m
  known_bind : ∀ {α β : Type} {x : Run α} {f : α → Run β} {m m' : Machine} {a : α},
    x m = .ok a m' → known x m → known (f a) m' → known (x >>= f) m
  known_stopped : ∀ {α β : Type} {x : Run α} {m m' : Machine} {reason : Stop} (f : α → Run β),
    x m = .error reason m' → known x m → known (x >>= f) m

attribute [instance] Comparison.order

namespace Comparison

/-- A comparison of a machine that meets a condition with its image.  There is one world. -/
def image (excused : Stop → Prop) (f : Machine → Machine) (keeps : Machine → Prop) :
    Comparison where
  World := Unit
  order := { le _ _ := True, lt _ _ := False, le_refl _ := trivial, le_trans _ _ _ _ _ := trivial,
             lt_iff_le_not_ge _ _ := ⟨False.elim, fun h => h.2 trivial⟩ }
  machines _ m m' := f m = m' ∧ keeps m
  excused := excused
  known _ _ := True
  known_pure _ _ := trivial
  known_throw _ _ := trivial
  known_bind _ _ _ := trivial
  known_stopped _ _ _ := trivial

variable (C : Comparison) {α β γ δ : Type}

/-- Two runs have ended alike: with results that are related, or both stopped for one reason.  The
    machines are still related. -/
inductive Ends (w : C.World) (post : C.World → α → β → Prop) :
    EStateM.Result Stop Machine α → EStateM.Result Stop Machine β → Prop
  | ok {w' : C.World} {a : α} {b : β} {m m' : Machine} : w ≤ w' → C.machines w' m m' →
      post w' a b → Ends w post (.ok a m) (.ok b m')
  | error {w' : C.World} (reason : Stop) {m m' : Machine} : w ≤ w' → C.machines w' m m' →
      Ends w post (.error reason m) (.error reason m')
  | excused {reason : Stop} (m : Machine) (r : EStateM.Result Stop Machine β) :
      C.excused reason → Ends w post (.error reason m) r

/-- From machines that are related, with at least what there is in a world, two runs end alike. -/
def Goes (w : C.World) (x : Run α) (y : Run β) (post : C.World → α → β → Prop) : Prop :=
  ∀ w' m m', w ≤ w' → C.machines w' m m' → C.known x m ∧ C.Ends w' post (x m) (y m')

variable {C} {w w' : C.World} {post : C.World → α → β → Prop} {post' : C.World → γ → δ → Prop}

namespace Goes

theorem mono {x : Run α} {y : Run β} (hx : C.Goes w x y post) (hle : w ≤ w') :
    C.Goes w' x y post :=
  fun _ m m' hle' hm => hx _ m m' (le_trans hle hle') hm

protected theorem pure {a : α} {b : β} (h : ∀ w', w ≤ w' → post w' a b) :
    C.Goes w (pure a) (pure b) post :=
  fun _ m _ hle hm => ⟨C.known_pure a m, .ok (le_refl _) hm (h _ hle)⟩

protected theorem throw (reason : Stop) : C.Goes w (throw reason) (throw reason) post :=
  fun _ m _ _ hm => ⟨C.known_throw reason m, .error reason (le_refl _) hm⟩

theorem excused {reason : Stop} (h : C.excused reason) (y : Run β) :
    C.Goes w (throw reason) y post :=
  fun _ m m' _ _ => ⟨C.known_throw reason m, .excused m (y m') h⟩

/-- What follows may count on there being no less than before. -/
theorem bind {x : Run α} {y : Run β} {f : α → Run γ} {g : β → Run δ} (hx : C.Goes w x y post)
    (hf : ∀ w' a b, w ≤ w' → post w' a b → C.Goes w' (f a) (g b) post') :
    C.Goes w (x >>= f) (y >>= g) post' := by
  intro w' m m' hle hm
  obtain ⟨hknown, hend⟩ := hx w' m m' hle hm
  generalize hr : x m = r, hr' : y m' = r' at hend
  cases hend with
  | error reason hle' hm' =>
    rw [bind_run_error hr, bind_run_error hr']
    exact ⟨C.known_stopped f hr hknown, .error reason hle' hm'⟩
  | excused m _ h =>
    rw [bind_run_error hr]
    exact ⟨C.known_stopped f hr hknown, .excused m _ h⟩
  | ok hle' hm' hab =>
    rw [bind_run_ok hr, bind_run_ok hr']
    obtain ⟨hknown', hend⟩ := hf _ _ _ (le_trans hle hle') hab _ _ _ (le_refl _) hm'
    refine ⟨C.known_bind hr hknown hknown', ?_⟩
    generalize f _ _ = r, g _ _ = r' at hend
    cases hend with
    | ok hle'' hm hcd => exact .ok (le_trans hle' hle'') hm hcd
    | error reason hle'' hm => exact .error reason (le_trans hle' hle'') hm
    | excused m _ h => exact .excused m _ h

/-- What comes after both runs is reached from where they were. -/
theorem andThen {x : Run α} {y : Run β} {f : α → Run γ} {g : β → Run δ}
    {mid : C.World → α → β → Prop} (hx : C.Goes w x y mid)
    (hf : ∀ w' a b, w ≤ w' → mid w' a b → C.Goes w (f a) (g b) post') :
    C.Goes w (x >>= f) (y >>= g) post' :=
  bind hx fun w' a b hle hab => (hf w' a b hle hab).mono hle

theorem ite {c d : Prop} [Decidable c] [Decidable d] {x x' : Run α} {y y' : Run β}
    (hcd : c ↔ d) (hx : C.Goes w x y post) (hx' : C.Goes w x' y' post) :
    C.Goes w (if c then x else x') (if d then y else y') post := by
  by_cases h : c
  · rwa [if_pos h, if_pos (hcd.mp h)]
  · rwa [if_neg h, if_neg (mt hcd.mpr h)]

end Goes

section Image

variable {excused : Stop → Prop} {f : Machine → Machine} {keeps : Machine → Prop}
  {x : Run α} {y : Run β} {post : Unit → α → β → Prop} {m : Machine}

/-- A step that always comes to a result. -/
theorem image_step (h : ∀ m, keeps m → ∃ a b n, x m = .ok a n ∧ y (f m) = .ok b (f n) ∧ keeps n ∧
    post () a b) : (image excused f keeps).Goes () x y post := by
  rintro _ m _ - ⟨rfl, hm⟩
  obtain ⟨a, b, n, hx, hy, hn, hab⟩ := h m hm
  rw [hx, hy]
  exact ⟨trivial, @Ends.ok (image excused f keeps) _ _ _ _ () _ _ _ _ trivial ⟨rfl, hn⟩ hab⟩

/-- How a run ends whose machine meets the condition, and what its companion does. -/
theorem Goes.image_ends (h : (image excused f keeps).Goes () x y post) (hm : keeps m) :
    (∃ a b n, x m = .ok a n ∧ y (f m) = .ok b (f n) ∧ keeps n ∧ post () a b) ∨
      (∃ reason n, x m = .error reason n ∧ y (f m) = .error reason (f n) ∧ keeps n) ∨
      ∃ reason n, x m = .error reason n ∧ excused reason := by
  have hend := (h () m (f m) trivial ⟨rfl, hm⟩).2
  generalize x m = r, y (f m) = r' at hend
  cases hend with
  | ok _ hn hab =>
    obtain ⟨rfl, hn⟩ := hn
    exact .inl ⟨_, _, _, rfl, rfl, hn, hab⟩
  | error reason _ hn =>
    obtain ⟨rfl, hn⟩ := hn
    exact .inr (.inl ⟨_, _, rfl, rfl, hn⟩)
  | excused m _ h => exact .inr (.inr ⟨_, _, rfl, h⟩)

end Image

end Comparison

/-! ## Laws -/

/-- A law of two runs: how their machines are compared, how evaluation is set in the first and what
    is set otherwise in the second, which trees are alike, which names may be used, which objects
    and frames are the same in a world, and which names may be bound in which frames.  All steps of
    a machine obey it.  If nothing else is said, both runs are of one tree and set alike, what has
    one number is the same, and no name is left out. -/
structure Law extends Comparison where
  setting : Setting
  tracing' : Bool := setting.tracing
  callLimit' : Nat := setting.callLimit
  likeness : Likeness := .same
  uses : String → Prop := fun _ => True
  objects : World → ObjectId → ObjectId → Prop := fun _ => Eq
  frames : World → FrameId → FrameId → Prop := fun _ => Eq
  binds : World → FrameId → FrameId → String → Prop := fun _ _ _ _ => True
  objects_iff : ∀ {w i j i' j'}, objects w i j → objects w i' j' → (i = i' ↔ j = j') := by
    exact fun h h' => h.congr h'
  objects_mono : ∀ {w w' i j}, w ≤ w' → objects w i j → objects w' i j := by exact fun _ h => h
  frames_mono : ∀ {w w' i j}, w ≤ w' → frames w i j → frames w' i j := by exact fun _ h => h
  binds_mono : ∀ {w w' i j x}, w ≤ w' → binds w i j x → binds w' i j x := by exact fun _ h => h
  newObject : ∀ w, toComparison.Goes w Machine.newObject Machine.newObject objects
  write : ∀ w text, toComparison.Goes w (Machine.write (.printed text))
    (Machine.write (.printed text)) fun _ _ _ => True
  trace : ∀ w n n', likeness.node n n' → toComparison.Goes w (Eval.trace setting.tracing n)
    (Eval.trace tracing' n') fun _ _ _ => True
  createFrame : ∀ {w f g}, frames w f g → toComparison.Goes w (Machine.createFrame (some f))
    (Machine.createFrame (some g)) fun w' i j => frames w' i j ∧ ∀ x, binds w' i j x
  bind : ∀ {w i j x v v'}, frames w i j → binds w i j x →
    Value.Related (likeness.kinship uses (objects w) (frames w) objects_iff) v v' →
    toComparison.Goes w (Machine.bind i x v) (Machine.bind j x v') fun _ _ _ => True
  lookup : ∀ {w i j x}, frames w i j → uses x →
    toComparison.Goes w (Machine.lookup i x) (Machine.lookup j x) fun w' =>
      Option.Rel (Value.Related (likeness.kinship uses (objects w') (frames w') objects_iff))

namespace Law

open Comparison

variable (L : Law) {w w' : L.World}

/-- How evaluation is set in the second run. -/
abbrev setting' : Setting :=
  { L.setting with tracing := L.tracing', callLimit := L.callLimit' }

/-- What is the same in a world. -/
def kin (w : L.World) : Kinship :=
  L.likeness.kinship L.uses (L.objects w) (L.frames w) L.objects_iff

/-- Values that are the same in a world. -/
abbrev Same (w : L.World) : Value → Value → Prop := Value.Related (L.kin w)

/-- Values that are the same, one by one. -/
abbrev AllSame (w : L.World) : List Value → List Value → Prop := List.Forall₂ (L.Same w)

/-- Entries whose keys and values are the same, one by one. -/
abbrev EntriesSame (w : L.World) :
    Ordered HashKey (Value × Value) → Ordered HashKey (Value × Value) → Prop :=
  Ordered.Rel (Value.RelatedTwice (L.kin w))

/-- Two runs give values that are the same. -/
abbrev Values (w : L.World) (x y : Run Value) : Prop := L.Goes w x y L.Same

/-- A result of several evaluations is related to another, or both are errors that are the same. -/
inductive Given {α β : Type} (post : L.World → α → β → Prop) (w : L.World) :
    Except Value α → Except Value β → Prop
  | ok {a : α} {b : β} : post w a b → Given post w (.ok a) (.ok b)
  | error {v v' : Value} : L.Same w v v' → Given post w (.error v) (.error v')

/-- Trees with some names may be evaluated in two frames: these are the same, the names that are
    used may be, and those that are bound may be bound there. -/
structure Admits (w : L.World) (i j : FrameId) (used bound : List String) : Prop where
  frames : L.frames w i j
  uses : ∀ x ∈ used, L.uses x
  binds : ∀ x ∈ bound, L.binds w i j x

variable {L} {α β : Type} {post : L.World → α → β → Prop}

theorem kin_grows (h : w ≤ w') : (L.kin w).Grows (L.kin w') :=
  ⟨L.objects_mono h, L.frames_mono h, id⟩

namespace Admits

variable {i j : FrameId} {x : String} {us us' bs bs' : List String}

theorem mono (h : L.Admits w i j us bs) (hle : w ≤ w') : L.Admits w' i j us bs :=
  ⟨L.frames_mono hle h.frames, h.uses, fun x hx => L.binds_mono hle (h.binds x hx)⟩

theorem left (h : L.Admits w i j (us ++ us') (bs ++ bs')) : L.Admits w i j us bs :=
  ⟨h.frames, fun x hx => h.uses x (List.mem_append_left us' hx),
    fun x hx => h.binds x (List.mem_append_left bs' hx)⟩

theorem right (h : L.Admits w i j (us ++ us') (bs ++ bs')) : L.Admits w i j us' bs' :=
  ⟨h.frames, fun x hx => h.uses x (List.mem_append_right us hx),
    fun x hx => h.binds x (List.mem_append_right bs hx)⟩

theorem tail (h : L.Admits w i j (x :: us) (x :: bs)) : L.Admits w i j us bs :=
  ⟨h.frames, fun y hy => h.uses y (.tail x hy), fun y hy => h.binds y (.tail x hy)⟩

end Admits

/-! ## Rules -/

theorem value {v v' : Value} (h : L.Same w v v') : L.Values w (pure v) (pure v') :=
  .pure fun _ hle => h.mono (kin_grows hle)

/-- A value that is checked for an error before it is used. -/
theorem checked_bind {x y : Run Value} {f g : Value → Run α} {f' g' : Value → Run β}
    (hx : L.Values w x y)
    (herror : ∀ w' v v', w ≤ w' → L.Same w' v v' → L.Goes w' (f v) (f' v') post)
    (hg : ∀ w' v v', w ≤ w' → L.Same w' v v' → L.Goes w' (g v) (g' v') post) :
    L.Goes w (x >>= fun v => if v.isError then f v else g v)
      (y >>= fun v => if v.isError then f' v else g' v) post :=
  .bind hx fun w' v v' hle hv =>
    .ite (by rw [hv.isError_eq]) (herror w' v v' hle hv) (hg w' v v' hle hv)

/-- A value that is handed upward if it is an error. -/
theorem checked {x y : Run Value} {g g' : Value → Run Value} (hx : L.Values w x y)
    (hg : ∀ w' v v', w ≤ w' → L.Same w' v v' → L.Values w' (g v) (g' v')) :
    L.Values w (x >>= fun v => if v.isError then pure v else g v)
      (y >>= fun v => if v.isError then pure v else g' v) :=
  checked_bind hx (fun _ _ _ _ hv => value hv) hg

theorem given_error {v v' : Value} (h : L.Same w v v') :
    L.Goes w (pure (.error v)) (pure (.error v')) (L.Given post) :=
  .pure fun _ hle => .error (h.mono (kin_grows hle))

end Law

end Monkey
