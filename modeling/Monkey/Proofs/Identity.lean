import Monkey.Proofs.Eval.HashLiteral
import Monkey.Proofs.Eval.ObservedAgrees
import Monkey.Proofs.History
import Monkey.Proofs.Operator

/-!
# Identity

Comparison tells arrays, hashes and functions apart by where they come from: two are equal if and
only if one evaluation of a literal, or one call of a builtin, made both.  Wherever a value is put,
it is found again as the value that was put there.
-/

namespace Monkey

/-! ## Comparison -/

/-- Two values are equal to a program. -/
def Value.Equals (v w : Value) : Prop :=
  ∀ m, Operator.applyBinary "==" v w m = .ok (.boolean true) m

/-- Among some values, any two are equal or not, and unequal if and only if they are not equal.
    Equality is an equivalence relation, and equal values are shown alike. -/
structure Compares (values : Value → Prop) : Prop where
  decided : ∀ v w, values v → values w → ∃ b, ∀ m,
    Operator.applyBinary "==" v w m = .ok (.boolean b) m ∧
      Operator.applyBinary "!=" v w m = .ok (.boolean !b) m
  equivalence : Equivalence fun v w : { v // values v } => v.1.Equals w.1
  inspect : ∀ v w, values v → values w → v.Equals w → v.inspect = w.inspect

/-- Whether two values of one type are equal. -/
def Value.alike : Value → Value → Bool
  | integer a, integer b => a == b
  | v, w => v.sameObject w

namespace Operator

theorem demand_eq_pure {v : Value} (h : v.isAbsent = false) : demand v = pure () := by
  unfold demand
  rw [h]
  rfl

/-- Values of one type other than that of strings are compared. -/
theorem applyBinary_compare {v w : Value} (hv : v.isAbsent = false) (hw : w.isAbsent = false)
    (htype : v.typeName = w.typeName) (hstring : v.typeName ≠ "STRING") (m : Machine) :
    applyBinary "==" v w m = .ok (.boolean (v.alike w)) m ∧
      applyBinary "!=" v w m = .ok (.boolean !v.alike w) m := by
  have hsame : ¬ v.typeName ≠ w.typeName := not_not_intro htype
  unfold applyBinary
  rw [demand_eq_pure hv, demand_eq_pure hw, pure_bind, pure_bind, pure_bind, pure_bind,
    if_neg hsame, if_neg hsame]
  cases v with
  | integer a =>
    cases w with
    | integer b =>
      have heq : (a.toInt == b.toInt) = (a == b) := by
        rw [Bool.eq_iff_iff, beq_iff_eq, beq_iff_eq, Int64.toInt_inj]
      constructor
      · show EStateM.Result.ok (Value.boolean (a.toInt == b.toInt)) m = .ok (.boolean (a == b)) m
        rw [heq]
      · show EStateM.Result.ok (Value.boolean (!(a.toInt == b.toInt))) m =
          .ok (.boolean !(a == b)) m
        rw [heq]
    | _ => exact ⟨rfl, rfl⟩
  | string => exact absurd rfl hstring
  | _ => exact ⟨rfl, rfl⟩

end Operator

namespace Value

variable {v w : Value}

theorem equals_iff (hv : v.isAbsent = false) (hw : w.isAbsent = false)
    (htype : v.typeName = w.typeName) (hstring : v.typeName ≠ "STRING") :
    v.Equals w ↔ v.alike w = true := by
  have hcompare := Operator.applyBinary_compare hv hw htype hstring
  constructor
  · intro h
    have hresult := (hcompare {}).1.symm.trans (h {})
    injection hresult with hresult
    exact Value.boolean.inj hresult
  · intro h m
    rw [(hcompare m).1, h]

/-- Values that are told apart by their numbers are alike only if these are the same. -/
theorem number?_of_alike {n : ObjectId} (hn : v.number? = some n) (h : v.alike w) :
    w.number? = some n := by
  cases v with
  | array | hash | function | returned =>
    cases hn
    cases w with
    | array | hash | function | returned =>
      first
      | cases h
      | exact congrArg some (eq_of_beq h).symm
    | _ => cases h
  | _ => cases hn

end Value

namespace Observed

variable {builtins : List Builtin} {log : Log} {v w : Value}

/-! ## Where values come from -/

/-- A value was made by the event at a place of a log, an evaluation or a call that makes values
    of its kind, and by no other. -/
structure ComesFrom (log : Log) (v : Value) (i : Nat) : Prop where
  made : ∃ origin, log[i]? = some (.made origin v) ∧ origin.makes v
  unique : ∀ j origin, log[j]? = some (.made origin v) → j = i

theorem Known.made (h : Known builtins log v) {n : ObjectId} (hn : v.number? = some n) :
    ∃ origin, Event.made origin v ∈ log := by
  cases v with
  | array | hash | function | returned => exact h
  | _ => cases hn

/-- Values without a number are alike only if they are the same. -/
theorem Known.eq_of_alike (h : Known builtins log v) (hn : v.number? = none)
    (habsent : v.isAbsent = false) (hstring : v.typeName ≠ "STRING") (halike : v.alike w) :
    v = w := by
  cases v with
  | integer a =>
    cases w with
    | integer b => exact congrArg Value.integer (eq_of_beq halike)
    | _ => cases halike
  | boolean a =>
    cases w with
    | boolean b => exact congrArg Value.boolean (eq_of_beq halike)
    | _ => cases halike
  | null =>
    cases w with
    | null => rfl
    | _ => cases halike
  | builtin b =>
    cases w with
    | builtin c => exact congrArg Value.builtin (eq_of_beq halike)
    | _ => cases halike
  | string => exact absurd rfl hstring
  | absent => cases habsent
  | error | tagged => cases h
  | array | hash | function | returned => cases hn

theorem Known.alike_self (h : Known builtins log v) (habsent : v.isAbsent = false)
    (hstring : v.typeName ≠ "STRING") : v.alike v = true := by
  cases v with
  | string => exact absurd rfl hstring
  | absent => cases habsent
  | error | tagged => cases h
  | null => rfl
  | _ => exact beq_self_eq_true _

namespace Accurate

/-- No two events make values of one number. -/
theorem place_injective (h : Accurate builtins log) {i j : Nat} {e f : Event} {n : ObjectId}
    (hi : log[i]? = some e) (hj : log[j]? = some f) (he : e.number? = some n)
    (hf : f.number? = some n) : i = j := by
  obtain ⟨hi', rfl⟩ := List.getElem?_eq_some_iff.mp hi
  obtain ⟨hj', rfl⟩ := List.getElem?_eq_some_iff.mp hj
  have hordered := List.pairwise_iff_getElem.mp h.ordered
  rcases Nat.lt_trichotomy i j with hlt | heq | hlt
  · exact absurd (hordered i j hi' hj' hlt n he n hf) (Nat.lt_irrefl n)
  · exact heq
  · exact absurd (hordered j i hj' hi' hlt n hf n he) (Nat.lt_irrefl n)

theorem exists_comesFrom (h : Accurate builtins log) (hv : Known builtins log v) {n : ObjectId}
    (hn : v.number? = some n) : ∃ i, ComesFrom log v i := by
  obtain ⟨origin, hmem⟩ := hv.made hn
  obtain ⟨i, hi⟩ := List.getElem?_of_mem hmem
  refine ⟨i, ⟨origin, hi, (h.proper _ hmem).1⟩, fun j origin' hj => ?_⟩
  exact h.place_injective hj hi hn hn

/-- Two values of one number are the same. -/
theorem eq_of_number? (h : Accurate builtins log) (hv : Known builtins log v)
    (hw : Known builtins log w) {n : ObjectId} (hnv : v.number? = some n)
    (hnw : w.number? = some n) : v = w := by
  obtain ⟨origin, hmem⟩ := hv.made hnv
  obtain ⟨origin', hmem'⟩ := hw.made hnw
  obtain ⟨i, hi⟩ := List.getElem?_of_mem hmem
  obtain ⟨j, hj⟩ := List.getElem?_of_mem hmem'
  rw [h.place_injective hi hj hnv hnw, hj] at hi
  cases hi
  rfl

/-- Two values of which a log says where they come from are alike only if they are the same. -/
theorem alike_iff (h : Accurate builtins log) (hv : Known builtins log v)
    (hw : Known builtins log w) (habsent : v.isAbsent = false) (hstring : v.typeName ≠ "STRING") :
    v.alike w = true ↔ v = w := by
  constructor
  · intro halike
    cases hn : v.number? with
    | none => exact hv.eq_of_alike hn habsent hstring halike
    | some n => exact h.eq_of_number? hv hw hn (Value.number?_of_alike hn halike)
  · rintro rfl
    exact hv.alike_self habsent hstring

end Accurate

/-- The types whose values are told apart by where they come from. -/
def identityTypes : List String := ["ARRAY", "HASH", "FUNCTION"]

theorem exists_number? (hv : Known builtins log v) (htype : v.typeName ∈ identityTypes) :
    ∃ n, v.number? = some n := by
  cases v with
  | array id | hash id | function id => exact ⟨id, rfl⟩
  | tagged => cases hv
  | _ => simp [identityTypes, Value.typeName] at htype

theorem ComesFrom.place_eq_iff {i j : Nat} (hi : ComesFrom log v i) (hj : ComesFrom log w j) :
    v = w ↔ i = j := by
  constructor
  · rintro rfl
    obtain ⟨origin, hplace, -⟩ := hi.made
    exact hj.unique i origin hplace
  · rintro rfl
    obtain ⟨origin, hplace, -⟩ := hi.made
    obtain ⟨origin', hplace', -⟩ := hj.made
    rw [hplace] at hplace'
    cases hplace'
    rfl

theorem isAbsent_eq_false_of_type (htype : v.typeName ∈ identityTypes) : v.isAbsent = false := by
  cases v with
  | absent => simp [identityTypes, Value.typeName] at htype
  | _ => rfl

/-- Two arrays, hashes or functions come each from one place of the log, and comparison gives
    whether this is the same. -/
theorem Accurate.compare (h : Accurate builtins log) (hv : Known builtins log v)
    (hw : Known builtins log w) (htype : v.typeName = w.typeName)
    (hidentity : v.typeName ∈ identityTypes) :
    ∃ i j, ComesFrom log v i ∧ ComesFrom log w j ∧
      ∀ m, Operator.applyBinary "==" v w m = .ok (.boolean (decide (i = j))) m := by
  obtain ⟨n, hn⟩ := exists_number? hv hidentity
  obtain ⟨k, hk⟩ := exists_number? hw (htype ▸ hidentity)
  obtain ⟨i, hi⟩ := h.exists_comesFrom hv hn
  obtain ⟨j, hj⟩ := h.exists_comesFrom hw hk
  refine ⟨i, j, hi, hj, fun m => ?_⟩
  have habsent := isAbsent_eq_false_of_type hidentity
  have hstring : v.typeName ≠ "STRING" := by
    intro heq
    rw [heq] at hidentity
    simp [identityTypes] at hidentity
  have halike : v.alike w = decide (i = j) := by
    rw [Bool.eq_iff_iff, h.alike_iff hv hw habsent hstring, hi.place_eq_iff hj, decide_eq_true_iff]
  rw [← halike]
  have hcompare := Operator.applyBinary_compare habsent
    (isAbsent_eq_false_of_type (htype ▸ hidentity)) htype hstring m
  exact hcompare.1

/-- The values of a type other than that of strings that a log accounts for are compared as they
    should. -/
theorem Accurate.compares (h : Accurate builtins log) {type : String} (htype : type ≠ "STRING") :
    Compares fun v => Accounts builtins log v ∧ v.typeName = type ∧ v.isAbsent = false := by
  have hequals : ∀ v w : Value, Accounts builtins log v ∧ v.typeName = type ∧ v.isAbsent = false →
      Accounts builtins log w ∧ w.typeName = type ∧ w.isAbsent = false →
      (v.Equals w ↔ v = w) := by
    rintro v w ⟨hv, rfl, habsent⟩ ⟨hw, hsame, habsent'⟩
    rw [Value.equals_iff habsent habsent' hsame.symm htype]
    exact h.alike_iff hv.here hw.here habsent htype
  refine ⟨?_, ⟨?_, ?_, ?_⟩, ?_⟩
  · rintro v w ⟨-, rfl, habsent⟩ ⟨-, hsame, habsent'⟩
    exact ⟨v.alike w, Operator.applyBinary_compare habsent habsent' hsame.symm htype⟩
  · rintro ⟨v, hv⟩
    exact (hequals v v hv hv).mpr rfl
  · rintro ⟨v, hv⟩ ⟨w, hw⟩ hvw
    exact (hequals w v hw hv).mpr ((hequals v w hv hw).mp hvw).symm
  · rintro ⟨v, hv⟩ ⟨w, hw⟩ ⟨u, hu⟩ hvw hwu
    exact (hequals v u hv hu).mpr (((hequals v w hv hw).mp hvw).trans ((hequals w u hw hu).mp hwu))
  · intro v w hv hw hvw
    exact congrArg Value.inspect ((hequals v w hv hw).mp hvw)

end Observed

/-! ## Where values are put -/

theorem Heap.lookup_of_find? {h : Heap} {i : FrameId} {x : String} {v : Value}
    (hfind : (h.bindings i).find? x = some v) : h.lookup x i = some v := by
  unfold Heap.bindings at hfind
  rw [Heap.lookup, Heap.lookupWithin]
  cases hf : h.frames[i]? with
  | none =>
    rw [hf] at hfind
    cases hfind
  | some f =>
    rw [hf] at hfind
    have hfind : f.bindings.find? x = some v := hfind
    simp only [hfind]

/-- The heap with names bound in a frame, one after the other. -/
def Heap.bindEach (h : Heap) (i : FrameId) (ps : List (Name × Value)) : Heap :=
  ps.foldl (fun h p => h.bind i p.1.value p.2) h

theorem Heap.find?_bindEach_of_notMem {h : Heap} {i : FrameId} (hi : i < h.frames.size)
    {ps : List (Name × Value)} {x : String} (hx : x ∉ ps.map fun p => p.1.value) :
    ((h.bindEach i ps).bindings i).find? x = (h.bindings i).find? x := by
  induction ps generalizing h with
  | nil => rfl
  | cons p ps ih =>
    rw [List.map_cons, List.mem_cons, not_or] at hx
    have hsize : i < (h.bind i p.1.value p.2).frames.size := (h.size_bind ..).symm ▸ hi
    refine (ih hsize hx.2).trans ?_
    rw [Heap.bindings_bind hi, if_pos rfl, Ordered.find?_insert_of_ne hx.1]

/-- Of names that are all different, each has the value it was given. -/
theorem Heap.find?_bindEach {h : Heap} {i : FrameId} (hi : i < h.frames.size)
    {ps : List (Name × Value)} (hnodup : (ps.map fun p => p.1.value).Nodup)
    {p : Name × Value} (hp : p ∈ ps) :
    ((h.bindEach i ps).bindings i).find? p.1.value = some p.2 := by
  induction ps generalizing h with
  | nil => cases hp
  | cons q ps ih =>
    rw [List.map_cons, List.nodup_cons] at hnodup
    have hsize : i < (h.bind i q.1.value q.2).frames.size := (h.size_bind ..).symm ▸ hi
    rcases List.mem_cons.mp hp with rfl | hp
    · refine (find?_bindEach_of_notMem hsize hnodup.1).trans ?_
      rw [Heap.bindings_bind hi, if_pos rfl, Ordered.find?_insert_self]
    · exact ih hsize hnodup.2 hp

namespace Eval

variable {cx : EvalContext} {i : FrameId} {v : Value} {m : Machine}

/-- The value of a name that is bound in the frame itself. -/
theorem valueOfName_run {x : String} (hv : v.isAbsent = false)
    (hfind : (m.heap.bindings i).find? x = some v) : valueOfName cx i x m = .ok v m := by
  have hlookup : Machine.lookup i x m = .ok (some v) m := by
    unfold Machine.lookup
    rw [Heap.lookup_of_find? hfind]
  unfold valueOfName
  rw [bind_run_ok hlookup]
  cases v with
  | absent => cases hv
  | _ => rfl

/-- Parameters are bound one after the other. -/
theorem bindAll_run (xs : List Name) (vs : List Value) :
    bindAll i xs vs m = .ok () { m with heap := m.heap.bindEach i (xs.zip vs) } := by
  induction xs generalizing vs m with
  | nil => rfl
  | cons x xs ih =>
    cases vs with
    | nil => rfl
    | cons v vs => exact ih vs

/-- A name that is bound has the value. -/
theorem valueOfName_of_bind {x : String} (hv : v.isAbsent = false) (hi : i < m.heap.frames.size) :
    ∃ m', (do Machine.bind i x v; valueOfName cx i x) m = .ok v m' := by
  have hbind : Machine.bind i x v m = .ok () { m with heap := m.heap.bind i x v } := rfl
  rw [bind_run_ok hbind]
  refine ⟨_, valueOfName_run hv ?_⟩
  rw [Heap.bindings_bind hi, if_pos rfl, Ordered.find?_insert_self]

/-- Inside a call, a parameter has the value of its argument. -/
theorem valueOfName_of_bindAll (outer : Option FrameId) {xs : List Name} {vs : List Value}
    (hlength : xs.length = vs.length) (hnodup : (xs.map Name.value).Nodup) {x : Name}
    (hx : (x, v) ∈ xs.zip vs) (hv : v.isAbsent = false) :
    ∃ m', (do
      let inner ← Machine.createFrame outer
      bindAll inner xs vs
      valueOfName cx inner x.value) m = .ok v m' := by
  have hsize : (m.heap.create outer).2 < (m.heap.create outer).1.frames.size :=
    Nat.lt_of_lt_of_eq (Nat.lt_succ_self _) (Heap.size_create m.heap outer).symm
  have hnames : (xs.zip vs).map (fun p => p.1.value) = xs.map Name.value := by
    have hfst := congrArg (List.map Name.value) (List.map_fst_zip (Nat.le_of_eq hlength))
    rwa [List.map_map] at hfst
  have hcreate : Machine.createFrame outer m =
      .ok (m.heap.create outer).2 { m with heap := (m.heap.create outer).1 } := rfl
  rw [bind_run_ok hcreate, bind_run_ok (bindAll_run xs vs)]
  exact ⟨_, valueOfName_run hv (Heap.find?_bindEach hsize (hnames ▸ hnodup) hx)⟩

end Eval

/-- Wherever a value is put, the same value is found: under a name, as a parameter, when it is
    handed out by a return statement or as the value of a body, at a place of an array that is a
    number of 64 bits, under a key of a hash, as the first or last element, and in the arrays that
    `rest` and `push` make. -/
structure Carried (v : Value) : Prop where
  bound (cx : EvalContext) (i : FrameId) (x : String) (m : Machine) :
    i < m.heap.frames.size →
    ∃ m', (do Machine.bind i x v; Eval.valueOfName cx i x) m = .ok v m'
  passed (cx : EvalContext) (outer : Option FrameId) (xs : List Name) (vs : List Value) (x : Name)
    (m : Machine) : xs.length = vs.length → (xs.map Name.value).Nodup → (x, v) ∈ xs.zip vs →
    ∃ m', (do
      let inner ← Machine.createFrame outer
      Eval.bindAll inner xs vs
      Eval.valueOfName cx inner x.value) m = .ok v m'
  returned (m : Machine) : ∃ m', (do Eval.openReturn (← Machine.newReturned v)) m = .ok v m'
  left (m : Machine) : Eval.openReturn v m = .ok v m
  element (surrogate? : Text.Surrogates) (vs : List Value) (k : Nat) (m : Machine) :
    vs[k]? = some v → (Int64.ofInt k).toInt = k →
    ∃ m', (do Operator.applyIndex surrogate? (← Machine.newArray vs) (.ofInt k)) m = .ok v m'
  entry (surrogate? : Text.Surrogates) (entries : Ordered HashKey (Value × Value))
    (key key' : Value) (k : HashKey) (m : Machine) : key.key? surrogate? = some k →
    key'.key? surrogate? = some k →
    ∃ m', (do
      Operator.applyIndex surrogate? (← Machine.newHash (entries.insert k (key, v))) key') m =
        .ok v m'
  first (name : String) (vs : List Value) (m : Machine) :
    ∃ m', (do Builtin.apply ⟨name, .first⟩ [← Machine.newArray (v :: vs)]) m = .ok v m'
  last (name : String) (vs : List Value) (m : Machine) :
    ∃ m', (do Builtin.apply ⟨name, .last⟩ [← Machine.newArray (vs ++ [v])]) m = .ok v m'
  rest (surrogate? : Text.Surrogates) (name : String) (w : Value) (vs : List Value) (k : Nat)
    (m : Machine) : vs[k]? = some v → (Int64.ofInt k).toInt = k →
    ∃ m', (do
      let shorter ← Builtin.apply ⟨name, .rest⟩ [← Machine.newArray (w :: vs)]
      Operator.applyIndex surrogate? shorter (.ofInt k)) m = .ok v m'
  push (surrogate? : Text.Surrogates) (name : String) (w : Value) (vs : List Value) (k : Nat)
    (m : Machine) : (vs ++ [w])[k]? = some v → (Int64.ofInt k).toInt = k →
    ∃ m', (do
      let longer ← Builtin.apply ⟨name, .push⟩ [← Machine.newArray vs, w]
      Operator.applyIndex surrogate? longer (.ofInt k)) m = .ok v m'

/-- An element of an array is found at its place, if this is a number that there is. -/
theorem Operator.applyIndex_array (surrogate? : Text.Surrogates) {vs : List Value} {k : Nat}
    {v : Value} (hv : vs[k]? = some v) (hk : (Int64.ofInt k).toInt = k) (id : ObjectId)
    (m : Machine) : applyIndex surrogate? (.array id vs) (.ofInt k) m = .ok v m := by
  have hnonneg : ¬ Int64.ofInt k < 0 := by
    rw [Int64.lt_iff_toInt_lt, hk]
    exact Int.not_lt.mpr (Int.natCast_nonneg k)
  have helement : elementAt vs (Int64.ofInt k) = v := by
    rw [elementAt, if_neg hnonneg, hk, Int.toNat_natCast, hv]
    rfl
  rw [Value.ofInt_eq]
  exact congrArg (EStateM.Result.ok · m) helement

/-- The value that was put under a key of a hash is found under it. -/
theorem Operator.applyIndex_insert {surrogate? : Text.Surrogates}
    (entries : Ordered HashKey (Value × Value)) {key' : Value} {k : HashKey}
    (hkey' : key'.key? surrogate? = some k) (key v : Value) (id : ObjectId) (m : Machine) :
    applyIndex surrogate? (.hash id (entries.insert k (key, v))) key' m = .ok v m := by
  rw [Eval.applyIndex_hash id _ hkey' m, Ordered.find?_insert_self]
  rfl

theorem Carried.of_value {v : Value} (habsent : v.isAbsent = false)
    (hreturned : ∀ id u, v ≠ .returned id u) : Carried v where
  bound _ _ _ _ hi := Eval.valueOfName_of_bind habsent hi
  passed _ outer _ _ _ _ hlength hnodup hx :=
    Eval.valueOfName_of_bindAll outer hlength hnodup hx habsent
  returned _ := ⟨_, rfl⟩
  left m := by
    cases v with
    | returned id u => exact absurd rfl (hreturned id u)
    | absent => cases habsent
    | _ => rfl
  element surrogate? _ _ m hv hk :=
    ⟨_, Operator.applyIndex_array surrogate? hv hk m.nextObject _⟩
  entry _ entries key _ _ m _ hkey' :=
    ⟨_, Operator.applyIndex_insert entries hkey' key v m.nextObject _⟩
  first _ _ _ := ⟨_, rfl⟩
  last name vs m := by
    refine ⟨{ m with nextObject := m.nextObject + 1 }, ?_⟩
    have hlast : (vs ++ [v]).getLast?.getD .null = v := by rw [List.getLast?_concat]; rfl
    exact congrArg (EStateM.Result.ok · _) hlast
  rest surrogate? _ _ _ _ m hv hk :=
    ⟨_, Operator.applyIndex_array surrogate? hv hk (m.nextObject + 1) _⟩
  push surrogate? _ _ _ _ m hv hk :=
    ⟨_, Operator.applyIndex_array surrogate? hv hk (m.nextObject + 1) _⟩

/-! ## Sessions -/

open Observed

theorem Observed.sound_start (setting : Setting) :
    Sound setting.builtins ⟨(Session.start setting).machine, []⟩ :=
  ⟨⟨.nil, nofun⟩, nofun, Heap.Everywhere.create Heap.everywhere_empty none⟩

/-- Whatever source texts are run one after the other, observed runs are runs, and their log is
    accurate: every array, hash and function that is an operand, a result or bound, or is inside
    one, comes from one event of the log, a single evaluation of a literal of its kind or a single
    call of a builtin that makes arrays.  Where a program compares two of one type, the result is
    whether they come from the same event, and any two values of which the log tells would be
    compared so.  On every type other than that of strings, equality is an equivalence relation,
    equal values are shown alike, and `!=` is the negation of `==`.  Nowhere does a value change
    its identity on the way. -/
theorem Session.runAll_identity (setting : Setting) (sources : List String) :
    let s := Session.start setting
    let log := (Observed.runAll s [] sources).2
    (Observed.runAll s [] sources).1 = s.runAll sources ∧
    Accurate setting.builtins log ∧
    (∀ t ∈ s.runAll sources, Tells setting.builtins log t) ∧
    (∀ v w result, .applied "==" v w result ∈ log → v.typeName = w.typeName →
      v.typeName ∈ identityTypes →
      ∃ i j, ComesFrom log v i ∧ ComesFrom log w j ∧ result = .boolean (decide (i = j))) ∧
    (∀ v w, Accounts setting.builtins log v → Accounts setting.builtins log w →
      v.typeName = w.typeName → v.typeName ∈ identityTypes →
      ∃ i j, ComesFrom log v i ∧ ComesFrom log w j ∧
        ∀ m, Operator.applyBinary "==" v w m = .ok (.boolean (decide (i = j))) m) ∧
    (∀ type, type ≠ "STRING" →
      Compares fun v =>
        Accounts setting.builtins log v ∧ v.typeName = type ∧ v.isAbsent = false) ∧
    ∀ v, v.typeName ∈ identityTypes → Carried v := by
  intro s log
  obtain ⟨hturns, haccurate, -, htells⟩ :=
    runAll_observes s (sound_start setting) sources
  refine ⟨hturns, haccurate, htells, ?_, ?_, fun _ => haccurate.compares, fun v hv => ?_⟩
  · intro v w result hmem htype hidentity
    obtain ⟨hv, hw, m, m', hrun⟩ := haccurate.proper _ hmem
    obtain ⟨i, j, hi, hj, hcompare⟩ := haccurate.compare hv.here hw.here htype hidentity
    rw [hcompare m] at hrun
    cases hrun
    exact ⟨i, j, hi, hj, rfl⟩
  · intro v w hv hw htype hidentity
    exact haccurate.compare hv.here hw.here htype hidentity
  · refine Carried.of_value (isAbsent_eq_false_of_type hv) ?_
    rintro id u rfl
    simp [identityTypes, Value.typeName] at hv

/-- One array under two names, and two arrays of one literal that is evaluated twice. -/
example : ((Observed.runAll (.start { callLimit := 100 }) []
    ["let f = fn() \x7b [1] \x7d; let a = f(); let b = a;",
      "a == first([b]); f() == f()"]).2.filterMap fun e => match e with
        | .applied _ _ _ result => some result.inspect
        | .made .. => none) = ["true", "false"] := by
  decide +kernel

end Monkey
