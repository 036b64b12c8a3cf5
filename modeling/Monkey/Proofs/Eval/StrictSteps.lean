import Monkey.Proofs.Eval.Mirrors
import Monkey.Proofs.Eval.Strict
import Monkey.Proofs.Parser.Shape

/-!
# Strict operators and builtins

The demands of strict operators and builtins are met by proper values: none of them is no
value, none of them is an error, and their types are those of the language.  On such values
operators and builtins agree with the strict ones.
-/

namespace Monkey

namespace Strict

open Grammar (Fits)
open Halt (step)

/-- A value that evaluation may keep: not an error and not the lack of a value, of one of the
    types of the language, and if a function, with a body that is a parsed block. -/
def Proper : Value → Prop
  | .absent | .error .. | .tagged .. => False
  | .function _ _ body _ => Fits .block body
  | _ => True

theorem admits_proper : Value.Admits Proper :=
  ⟨fun _ => trivial, fun _ => trivial, fun _ => trivial, trivial, fun _ _ => trivial,
    fun _ _ => trivial, fun _ => trivial⟩

/-- A value and all values within it are proper. -/
abbrev Sound (v : Value) : Prop := v.Everywhere Proper

/-- A value is an error or sound. -/
abbrev Fine (v : Value) : Prop := v.Fine Proper

variable {v : Value}

theorem isError_of_sound (h : Sound v) : v.isError = false := by
  cases v with
  | error => exact h.here.elim
  | _ => rfl

theorem isAbsent_of_sound (h : Sound v) : v.isAbsent = false := by
  cases v with
  | absent => exact h.here.elim
  | _ => rfl

theorem isAbsent_of_fine (h : Fine v) : v.isAbsent = false := by
  rcases h with h | h
  · cases v with
    | error => rfl
    | _ => cases h
  · exact isAbsent_of_sound h

theorem sound_of_fine (h : Fine v) (he : ¬ v.isError) : Sound v := h.resolve_left he

/-! ## The demands are met -/

theorem typeOf_eq (h : v.isAbsent = false) : typeOf v = pure v.typeName := by
  cases v with
  | absent => cases h
  | _ => rfl

theorem typeOf_bind {α : Type} (h : v.isAbsent = false) (f : String → Run α) :
    (typeOf v >>= f) = f v.typeName := by
  rw [typeOf_eq h, pure_bind]

theorem demand_bind_eq {α : Type} (h : v.isAbsent = false) (f : Unit → Monkey.Run α) :
    (Operator.demand v >>= f) = f () := by
  rw [Operator.demand, if_neg (Bool.eq_false_iff.mp h), pure_bind]

theorem exists_integer (h : Sound v) (ht : v.typeName = "INTEGER") : ∃ n, v = .integer n := by
  cases v with
  | integer n => exact ⟨n, rfl⟩
  | tagged => exact h.here.elim
  | _ => simp [Value.typeName] at ht

theorem exists_string (h : Sound v) (ht : v.typeName = "STRING") : ∃ s, v = .string s := by
  cases v with
  | string s => exact ⟨s, rfl⟩
  | tagged => exact h.here.elim
  | _ => simp [Value.typeName] at ht

theorem exists_array (h : Sound v) (ht : v.typeName = "ARRAY") :
    ∃ id elements, v = .array id elements := by
  cases v with
  | array id elements => exact ⟨id, elements, rfl⟩
  | tagged => exact h.here.elim
  | _ => simp [Value.typeName] at ht

theorem exists_hash (h : Sound v) (ht : v.typeName = "HASH") :
    ∃ id entries, v = .hash id entries := by
  cases v with
  | hash id entries => exact ⟨id, entries, rfl⟩
  | tagged => exact h.here.elim
  | _ => simp [Value.typeName] at ht

theorem exists_returned (h : Fine v) (ht : v.typeName = "RETURN_VALUE") :
    ∃ id payload, v = .returned id payload := by
  cases v with
  | returned id payload => exact ⟨id, payload, rfl⟩
  | tagged => exact (h.resolve_left Bool.false_ne_true).here.elim
  | _ => simp [Value.typeName] at ht

theorem exists_error (h : Fine v) (ht : v.typeName = "ERROR") :
    ∃ id message, v = .error id message := by
  cases v with
  | error id message => exact ⟨id, message, rfl⟩
  | tagged => exact (h.resolve_left Bool.false_ne_true).here.elim
  | _ => simp [Value.typeName] at ht

theorem isHashable_eq (h : Sound v) : isHashable v = pure v.isHashable := by
  rw [isHashable, typeOf_bind (isAbsent_of_sound h)]
  cases v with
  | tagged => exact h.here.elim
  | _ => simp [Value.typeName, Value.isHashable]

theorem keep_bind {α : Type} (h : ¬ v.isError) (f : Unit → Run α) : (keep v >>= f) = f () := by
  rw [keep, if_neg h, pure_bind]

theorem keepAll_bind {α : Type} {vs : List Value} (h : ∀ v ∈ vs, Sound v) (f : Unit → Run α) :
    (keepAll vs >>= f) = f () := by
  have hany : ¬ vs.any Value.isError := by
    intro hany
    obtain ⟨v, hv, he⟩ := List.any_eq_true.mp hany
    rw [isError_of_sound (h v hv)] at he
    cases he
  rw [keepAll, if_neg hany, pure_bind]

theorem signalled?_of_isError (h : v.isError) : signalled? [v] = some v := if_pos h

theorem signalled?_of_sound {vs : List Value} (h : ∀ v ∈ vs, Sound v) :
    signalled? vs = none := by
  match vs with
  | [] | _ :: _ :: _ => rfl
  | [v] =>
    have he := isError_of_sound (h v (List.mem_singleton.mpr rfl))
    exact if_neg (Bool.eq_false_iff.mp he)

theorem areWhole_of_forall {vs : List Value} (h : ∀ v ∈ vs, v.isWhole) :
    Value.areWhole vs := by
  induction vs with
  | nil => rfl
  | cons v vs ih =>
    rw [List.forall_mem_cons] at h
    rw [Value.areWhole, h.1, ih h.2]
    rfl

theorem entriesAreWhole_of_forall {es : List (HashKey × (Value × Value))}
    (hkeys : ∀ e ∈ es, e.2.1.isWhole) (hvalues : ∀ e ∈ es, e.2.2.isWhole) :
    Value.entriesAreWhole es := by
  induction es with
  | nil => rfl
  | cons e es ih =>
    obtain ⟨hash, key, v⟩ := e
    rw [List.forall_mem_cons] at hkeys hvalues
    rw [Value.entriesAreWhole, hkeys.1, hvalues.1, ih hkeys.2 hvalues.2]
    rfl

/-- All there is to a sound value can be shown. -/
theorem isWhole_of_sound (h : Sound v) : v.isWhole := by
  induction h with
  | array _ _ ih =>
    rw [Value.isWhole]
    exact areWhole_of_forall ih
  | hash _ _ _ ihkeys ihvalues =>
    rw [Value.isWhole]
    exact entriesAreWhole_of_forall ihkeys ihvalues
  | returned _ _ ih =>
    rw [Value.isWhole]
    exact ih
  | @plain v hplain hv =>
    cases v with
    | array | hash | returned => cases hplain
    | absent => exact hv.elim
    | _ => rfl

/-! ## Runs that agree -/

/-- Why evaluation may stop: calls are nested too deeply, or a string without an encoding is to
    be a key. -/
def MayStop (surrogate? : Text.Surrogates) (reason : Stop) : Prop :=
  reason = .callDepth ∨ ∃ text error, Text.encodeUtf8 surrogate? text = .error error ∧
    reason = .noKey (.unencodable error)

/-- A run does what a run of strict evaluation does, which is not broken off, on machines
    where only sound values are bound. -/
abbrev Unbroken {α β : Type} (surrogate? : Text.Surrogates) (result : α → β → Prop)
    (x : Monkey.Run β) (y : Run α) : Prop :=
  Mirrors (Machine.Holds Proper) (MayStop surrogate?) (fun _ _ => False) result x y

/-- The run gives a value that meets a condition. -/
abbrev Gives (surrogate? : Text.Surrogates) (post : Value → Prop) (x : Monkey.Run Value)
    (y : Run Value) : Prop :=
  Unbroken surrogate? (Same post) x y

variable {surrogate? : Text.Surrogates}

theorem Unbroken.bind {α β γ δ : Type} {result : α → β → Prop} {result' : γ → δ → Prop}
    {x : Monkey.Run β} {y : Run α} {f : β → Monkey.Run δ} {g : α → Run γ}
    (hx : Unbroken surrogate? result x y)
    (hf : ∀ a b, result a b → Unbroken surrogate? result' (f b) (g a)) :
    Unbroken surrogate? result' (x >>= f) (y >>= g) :=
  Mirrors.bind hx (fun _ _ h => h.elim) hf

namespace Gives

variable {x : Monkey.Run Value} {y : Run Value} {post : Value → Prop}

theorem mono {post' : Value → Prop} (hx : Gives surrogate? post x y) (h : ∀ v, post v → post' v) :
    Gives surrogate? post' x y :=
  Mirrors.mono hx (fun _ _ => id) fun _ _ hv => ⟨hv.1, h _ hv.2⟩

theorem value (h : post v) : Gives surrogate? post (pure v) (pure v) :=
  Mirrors.pure ⟨rfl, h⟩

theorem step (hx : Ensures (Machine.Holds Proper) (MayStop surrogate?) x post) :
    Gives surrogate? post x (step x) :=
  Mirrors.step hx fun _ hv => ⟨rfl, hv⟩

theorem raise (problem : Problem) : Gives surrogate? Fine problem.raise (Strict.raise problem) :=
  step (raise_fine problem)

theorem sound (h : Sound v) : Gives surrogate? Fine (pure v) (pure v) := value (.inr h)

theorem null : Gives surrogate? Fine (pure .null) (pure .null) :=
  sound (null_everywhere admits_proper)

theorem integer (n : Int64) : Gives surrogate? Fine (pure (.integer n)) (pure (.integer n)) :=
  sound (integer_everywhere admits_proper n)

theorem boolean (b : Bool) : Gives surrogate? Fine (pure (.boolean b)) (pure (.boolean b)) :=
  sound (boolean_everywhere admits_proper b)

theorem string (s : String) : Gives surrogate? Fine (pure (.string s)) (pure (.string s)) :=
  sound (string_everywhere admits_proper s)

theorem array {vs : List Value} (h : ∀ v ∈ vs, Sound v) :
    Gives surrogate? Fine (Machine.newArray vs) (newArray vs) := by
  rw [newArray, keepAll_bind h]
  exact step ((newArray_keeps admits_proper h).mono fun _ => .inr)

/-- A value that the rule checks for an error before it goes on. -/
theorem checked_bind {γ δ : Type} {result : γ → δ → Prop} {handed : Value → γ}
    {handed' : Value → δ} {f : Value → Monkey.Run δ} {g : Value → Run γ}
    (hx : Gives surrogate? Fine x y)
    (herror : ∀ v, v.isError → result (handed v) (handed' v))
    (hf : ∀ v, Sound v → Unbroken surrogate? result (f v) (g v)) :
    Unbroken surrogate? result (x >>= fun v => if v.isError then pure (handed' v) else f v)
      (y >>= fun v => if v.isError then pure (handed v) else g v) :=
  Mirrors.checked_bind hx herror fun v hv he => hf v (sound_of_fine hv he)

end Gives

theorem same_of_isError (h : v.isError) : Same Fine v v := ⟨rfl, .inl h⟩

/-! ## Operators agree -/

theorem applyPrefix_gives {operator : String} (ho : operator = "!" ∨ operator = "-")
    (hv : Sound v) :
    Gives surrogate? Fine (Operator.applyPrefix operator v) (applyPrefix operator v) := by
  unfold Operator.applyPrefix applyPrefix
  refine Mirrors.ite (fun _ => Gives.boolean _) fun hbang => ?_
  obtain rfl := ho.resolve_left hbang
  rw [demand_bind_eq (isAbsent_of_sound hv), typeOf_bind (isAbsent_of_sound hv), if_pos rfl,
    if_pos rfl]
  by_cases ht : v.typeName = "INTEGER"
  · obtain ⟨n, rfl⟩ := exists_integer hv ht
    rw [if_neg (not_not.mpr ht)]
    exact Gives.integer _
  · rw [if_pos ht]
    split
    · exact absurd rfl ht
    · exact Gives.raise _

theorem applyIntegers_gives (operator : String) (a b : Int64) :
    Gives surrogate? Fine (Operator.applyIntegers operator a b) (applyIntegers operator a b) := by
  unfold applyIntegers
  by_cases ho : operator = "/"
  · subst ho
    rw [if_pos rfl]
    refine Mirrors.ite (fun _ => Gives.raise _) fun hb => ?_
    rw [quotient, if_neg hb, pure_bind]
    exact Gives.integer _
  · rw [if_neg ho]
    exact Gives.step (applyIntegers_fine admits_proper operator a b)

theorem applyBinary_gives (operator : String) {l r : Value} (hl : Sound l) (hr : Sound r) :
    Gives surrogate? Fine (Operator.applyBinary operator l r) (applyBinary operator l r) := by
  unfold Operator.applyBinary applyBinary
  rw [demand_bind_eq (isAbsent_of_sound hl), demand_bind_eq (isAbsent_of_sound hr),
    typeOf_bind (isAbsent_of_sound hl), typeOf_bind (isAbsent_of_sound hr)]
  refine Mirrors.ite (fun _ => Gives.raise _) fun hsame => ?_
  replace hsame : l.typeName = r.typeName := not_not.mp hsame
  by_cases hinteger : l.typeName = "INTEGER"
  · rw [if_pos hinteger]
    obtain ⟨b, rfl⟩ := exists_integer hr (hsame ▸ hinteger)
    obtain ⟨a, rfl⟩ := exists_integer hl hinteger
    exact applyIntegers_gives operator a b
  rw [if_neg hinteger]
  by_cases hstring : l.typeName = "STRING"
  · rw [if_pos hstring]
    obtain ⟨t, rfl⟩ := exists_string hr (hsame ▸ hstring)
    obtain ⟨s, rfl⟩ := exists_string hl hstring
    by_cases ho : operator = "+"
    · rw [if_neg (not_not.mpr ho)]
      show Gives surrogate? Fine (if _ then _ else _) _
      rw [if_pos ho]
      exact Gives.string _
    · rw [if_pos ho]
      show Gives surrogate? Fine (if _ then _ else _) _
      rw [if_neg ho]
      exact Gives.raise _
  rw [if_neg hstring]
  split
  · exact absurd rfl hinteger
  · exact absurd rfl hstring
  · refine Mirrors.ite (fun _ => Gives.boolean _) fun _ => ?_
    exact Mirrors.ite (fun _ => Gives.boolean _) fun _ => Gives.raise _

theorem elementAt_gives {id : ObjectId} {vs : List Value} (h : ∀ v ∈ vs, Sound v) (i : Int64) :
    Gives surrogate? Fine (pure (Operator.elementAt vs i))
      (elementAt (.array id vs) (.integer i)) := by
  show Gives surrogate? Fine _ (if _ then _ else _)
  unfold Operator.elementAt
  by_cases hneg : i < 0
  · rw [if_pos hneg, if_pos (.inl hneg)]
    exact Gives.null
  · have hnonneg : 0 ≤ i.toInt := by
      rw [Int64.lt_iff_toInt_lt] at hneg
      exact Int.not_lt.mp hneg
    rw [if_neg hneg]
    by_cases hlength : (vs.length : Int) ≤ i.toInt
    · rw [if_pos (.inr hlength), List.getElem?_eq_none (by omega)]
      exact Gives.null
    · have hin : i.toInt.toNat < vs.length := by omega
      rw [if_neg (not_or.mpr ⟨hneg, hlength⟩), item, List.getElem?_eq_getElem hin]
      exact Gives.sound (h _ (List.getElem_mem hin))

/-- What can be a key has one, unless it is a string without an encoding. -/
theorem keyOf_gives (h : v.isHashable) :
    Unbroken surrogate? (Same fun _ => True) (Operator.keyOf surrogate? v)
      (keyOf surrogate? v) := by
  unfold Operator.keyOf keyOf
  cases v with
  | integer | boolean => exact Mirrors.pure ⟨rfl, trivial⟩
  | string s =>
    rw [Value.hashKey]
    cases hbytes : Text.encodeUtf8 surrogate? s with
    | ok bytes => exact Mirrors.pure ⟨rfl, trivial⟩
    | error e => exact Mirrors.stop (.inr ⟨s, e, hbytes, rfl⟩)
  | _ => cases h

theorem valueAt_gives {id : ObjectId} {es : Ordered HashKey (Value × Value)}
    (hes : Sound (.hash id es)) (hv : Sound v) :
    Gives surrogate? Fine (Operator.applyIndex surrogate? (.hash id es) v)
      (valueAt surrogate? (.hash id es) v) := by
  rw [Operator.applyIndex, demand_bind_eq rfl, demand_bind_eq (isAbsent_of_sound hv), valueAt,
    isHashable_eq hv, pure_bind, typeOf_eq (isAbsent_of_sound hv), pure_bind]
  by_cases hhashable : v.isHashable
  · rw [if_pos hhashable, if_neg (by simp [hhashable]), entriesOf,
      pure_bind]
    refine Unbroken.bind (keyOf_gives hhashable) ?_
    rintro _ key ⟨rfl, -⟩
    have hvalue := getD_everywhere (null_everywhere admits_proper) (hes.valueOfKey key)
    cases hfind : Ordered.find? key es with
    | none => exact Gives.null
    | some entry =>
      rw [hfind] at hvalue
      exact Gives.sound hvalue
  · rw [if_neg hhashable, if_pos (by simp [hhashable])]
    exact Gives.raise _

theorem applyIndex_gives {l r : Value} (hl : Sound l) (hr : Sound r) :
    Gives surrogate? Fine (Operator.applyIndex surrogate? l r) (applyIndex surrogate? l r) := by
  unfold Operator.applyIndex applyIndex
  rw [demand_bind_eq (isAbsent_of_sound hl), typeOf_bind (isAbsent_of_sound hl)]
  by_cases harray : l.typeName = "ARRAY"
  · rw [if_pos harray, typeOf_bind (isAbsent_of_sound hr)]
    obtain ⟨id, vs, rfl⟩ := exists_array hl harray
    show Gives surrogate? Fine (_ >>= fun _ => _) _
    rw [demand_bind_eq (isAbsent_of_sound hr)]
    by_cases hinteger : r.typeName = "INTEGER"
    · obtain ⟨i, rfl⟩ := exists_integer hr hinteger
      rw [if_pos hinteger]
      exact elementAt_gives hl.elements i
    · rw [if_neg hinteger]
      split
      · exact absurd rfl hinteger
      · exact Gives.raise _
  rw [if_neg harray]
  by_cases hhash : l.typeName = "HASH"
  · rw [if_pos hhash]
    obtain ⟨id, es, rfl⟩ := exists_hash hl hhash
    exact valueAt_gives hl hr
  rw [if_neg hhash]
  split
  · exact absurd rfl harray
  · exact absurd rfl hhash
  · exact Gives.raise _

/-! ## Builtins agree -/

section Builtins

variable {function : String} {args : List Value}

theorem typeProblem?_eq (hargs : ∀ v ∈ args, Sound v) (wants : List (Option String)) :
    typeProblem? function args wants =
      pure (match Builtin.checkTypes function args wants with
        | .ok () => none
        | .error problem => some problem) := by
  induction args generalizing wants with
  | nil => rfl
  | cons v vs ih =>
    rw [List.forall_mem_cons] at hargs
    match wants with
    | [] => rfl
    | none :: wants => exact ih hargs.2 wants
    | some want :: wants =>
      have habsent := isAbsent_of_sound hargs.1
      rw [typeProblem?, typeOf_bind habsent, Builtin.checkTypes,
        if_neg (Bool.eq_false_iff.mp habsent)]
      split
      · rfl
      · exact ih hargs.2 wants

theorem checked_eq (hargs : ∀ v ∈ args, Sound v) (wants : List (Option String))
    (next : Run Value) :
    checked function args wants next =
      match Builtin.check function args wants with
      | .ok () => next
      | .error problem => raise problem := by
  rw [checked, Builtin.check, typeProblem?_eq hargs, pure_bind]
  split
  · rfl
  · cases Builtin.checkTypes function args wants <;> rfl

/-- A builtin whose first argument has to be an array: the arguments are wrong, or they begin
    with an array. -/
theorem onArray_gives (hargs : ∀ v ∈ args, Sound v) (wants : List (Option String))
    {x : Monkey.Run Value} {next : Run Value}
    (hwrong : ∀ problem, Builtin.arrayArgument function args (some "ARRAY" :: wants) =
      .error problem → x = problem.raise)
    (hnext : ∀ id elements rest, args = .array id elements :: rest →
      rest.length = wants.length →
      Builtin.arrayArgument function args (some "ARRAY" :: wants) = .ok elements →
      Gives surrogate? Fine x next) :
    Gives surrogate? Fine x (checked function args (some "ARRAY" :: wants) next) := by
  rw [checked_eq hargs]
  unfold Builtin.arrayArgument at hwrong hnext
  cases hcheck : Builtin.check function args (some "ARRAY" :: wants) with
  | error problem =>
    rw [hcheck] at hwrong
    rw [hwrong problem rfl]
    exact Gives.raise problem
  | ok =>
    rw [hcheck] at hnext
    unfold Builtin.check at hcheck
    split at hcheck
    · cases hcheck
    next hlength =>
    cases args with
    | nil => simp at hlength
    | cons v rest =>
      have hv := (List.forall_mem_cons.mp hargs).1
      rw [Builtin.checkTypes, if_neg (Bool.eq_false_iff.mp (isAbsent_of_sound hv))] at hcheck
      split at hcheck
      · cases hcheck
      next htype =>
      obtain ⟨id, elements, rfl⟩ := exists_array hv (not_not.mp htype)
      exact hnext id elements rest rfl (by simpa using hlength) rfl

theorem printAll_gives (hargs : ∀ v ∈ args, Sound v) :
    Gives surrogate? Fine (Builtin.printAll function args) (printAll args) := by
  induction args with
  | nil => exact Gives.null
  | cons v vs ih =>
    rw [List.forall_mem_cons] at hargs
    have hwhole := isWhole_of_sound hargs.1
    rw [Builtin.printAll, printAll, shown, if_pos hwhole, if_pos hwhole, pure_bind]
    exact Mirrors.step_bind (write_keeps _) fun _ _ => ih hargs.2

theorem lengthOf_gives (hargs : ∀ v ∈ args, Sound v) :
    Gives surrogate? Fine (Builtin.lengthOf function args)
      (checked function args [none] do
        let v ← item args 0
        lengthOf function v) := by
  rw [checked_eq hargs]
  unfold Builtin.lengthOf
  cases hcheck : Builtin.check function args [none] with
  | error problem => exact Gives.raise _
  | ok =>
    match args with
    | [] => simp [Builtin.check] at hcheck
    | v :: rest =>
      have hv := (List.forall_mem_cons.mp hargs).1
      show Gives surrogate? Fine _ (lengthOf function v)
      rw [lengthOf, typeOf_bind (isAbsent_of_sound hv)]
      by_cases hstring : v.typeName = "STRING"
      · rw [if_pos hstring]
        obtain ⟨s, rfl⟩ := exists_string hv hstring
        exact Gives.integer _
      rw [if_neg hstring]
      by_cases harray : v.typeName = "ARRAY"
      · rw [if_pos harray]
        obtain ⟨id, elements, rfl⟩ := exists_array hv harray
        exact Gives.integer _
      rw [if_neg harray]
      cases v with
      | string => exact absurd rfl hstring
      | array => exact absurd rfl harray
      | absent => exact hv.here.elim
      | _ => exact Gives.raise _

theorem applyBuiltin_gives (b : Builtin) (hargs : ∀ v ∈ args, Sound v) :
    Gives surrogate? Fine (b.apply args) (applyBuiltin b args) := by
  obtain ⟨name, action⟩ := b
  cases action with
  | puts => exact printAll_gives hargs
  | len => exact lengthOf_gives hargs
  | first =>
    refine onArray_gives hargs [] (fun _ h => ?_) fun id vs rest hvs _ h => ?_
    · simp only [Builtin.apply, h]
    · subst hvs
      simp only [Builtin.apply, h]
      cases vs with
      | nil => exact Gives.null
      | cons v vs =>
        have helements := (hargs _ (List.mem_cons_self ..)).elements
        exact Gives.sound (helements v (List.mem_cons_self ..))
  | last =>
    refine onArray_gives hargs [] (fun _ h => ?_) fun id vs rest hvs _ h => ?_
    · simp only [Builtin.apply, h]
    · subst hvs
      simp only [Builtin.apply, h]
      cases vs with
      | nil => exact Gives.null
      | cons v vs =>
        have helements := (hargs _ (List.mem_cons_self ..)).elements
        have hlast := List.getLast?_eq_some_getLast (List.cons_ne_nil v vs)
        show Gives surrogate? Fine _ (item (v :: vs) ((v :: vs).length - 1))
        rw [item, ← List.getLast?_eq_getElem?, hlast]
        exact Gives.sound (helements _ (List.getLast_mem _))
  | rest =>
    refine onArray_gives hargs [] (fun _ h => ?_) fun id vs rest hvs _ h => ?_
    · simp only [Builtin.apply, h]
    · subst hvs
      simp only [Builtin.apply, h]
      cases vs with
      | nil => exact Gives.null
      | cons v vs =>
        have helements := (hargs _ (List.mem_cons_self ..)).elements
        exact Gives.array (List.forall_mem_cons.mp helements).2
  | push =>
    refine onArray_gives hargs [none] (fun _ h => ?_) fun id vs rest hvs hrest h => ?_
    · simp only [Builtin.apply, h]
    · subst hvs
      simp only [Builtin.apply, h]
      obtain ⟨w, rfl⟩ := List.length_eq_one_iff.mp hrest
      have helements := (hargs _ (List.mem_cons_self ..)).elements
      refine Gives.array (List.forall_mem_append.mpr ⟨helements, fun u hu => ?_⟩)
      exact hargs u (List.mem_cons_of_mem _ hu)
  | refuse | fail => exact Gives.raise _
  | echo => exact Gives.array hargs

end Builtins

end Strict

end Monkey
