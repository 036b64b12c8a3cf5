import Mathlib.Data.List.Basic
import Monkey.Proofs.Fnv
import Monkey.Proofs.Session

/-!
# Hash literals

What a hash literal keeps of its pairs: under a key it has the last pair whose key is the same.
Integers, booleans and strings are told apart as keys, except for strings whose hashes agree.
There are such strings, and of two pairs with such keys only one is kept.
-/

namespace Monkey

/-! ## Maps of pairs -/

namespace Ordered

variable {κ ν : Type} [DecidableEq κ]

/-- The map in which pairs are set one after the other. -/
def setAll (m : Ordered κ ν) (ps : List (κ × ν)) : Ordered κ ν :=
  ps.foldl (fun m p => m.insert p.1 p.2) m

theorem find?_append (key : κ) (m n : Ordered κ ν) :
    find? key (m ++ n) = (find? key m).or (find? key n) := by
  induction m with
  | nil => rfl
  | cons p rest ih =>
    obtain ⟨k, v⟩ := p
    rw [List.cons_append, find?_cons, find?_cons, ih]
    by_cases hk : k = key
    · rw [if_pos hk, if_pos hk, Option.some_or]
    · rw [if_neg hk, if_neg hk]

/-- What was set last for a key is found. -/
theorem find?_setAll (key : κ) (m : Ordered κ ν) (ps : List (κ × ν)) :
    find? key (m.setAll ps) = (find? key ps.reverse).or (find? key m) := by
  induction ps generalizing m with
  | nil => rfl
  | cons p rest ih =>
    obtain ⟨k, v⟩ := p
    have hstep : m.setAll ((k, v) :: rest) = (m.insert k v).setAll rest := rfl
    rw [hstep, ih, List.reverse_cons, find?_append, find?_cons, find?_nil]
    by_cases hk : k = key
    · subst hk
      rw [if_pos rfl, find?_insert_self, Option.or_assoc, Option.some_or]
    · rw [if_neg hk, find?_insert_of_ne (Ne.symm hk), Option.or_none]

end Ordered

/-! ## Keys -/

/-- Two values are the same key: the same integer, the same boolean, or strings whose encodings
    have the same hash. -/
inductive Value.SameKey (surrogate? : Text.Surrogates) : Value → Value → Prop
  | integer (n : Int64) : SameKey surrogate? (.integer n) (.integer n)
  | boolean (b : Bool) : SameKey surrogate? (.boolean b) (.boolean b)
  | string {s t : String} {a b : List UInt8} : Text.encodeUtf8 surrogate? s = .ok a →
      Text.encodeUtf8 surrogate? t = .ok b → Fnv.hash a = Fnv.hash b →
      SameKey surrogate? (.string s) (.string t)

namespace Value

/-- The key under which a hash keeps a value, if it has one. -/
def key? (surrogate? : Text.Surrogates) (v : Value) : Option HashKey :=
  (v.hashKey surrogate?).toOption

variable {surrogate? : Text.Surrogates} {v w : Value} {key : HashKey}

theorem key?_eq_some_iff : v.key? surrogate? = some key ↔ v.hashKey surrogate? = .ok key := by
  unfold key?
  cases v.hashKey surrogate? <;> simp [Except.toOption]

/-- What can be a key has one where no character stands for an unpaired surrogate. -/
theorem isSome_key?_of_isHashable (h : v.isHashable) (hnone : ∀ c, surrogate? c = none) :
    (v.key? surrogate?).isSome := by
  cases v with
  | integer | boolean => rfl
  | string s =>
    have hbytes : Text.encodeUtf8 surrogate? s = .ok s.toUTF8.data.toList := by
      rw [Text.encodeUtf8, Text.encodeError?_eq_none_iff.mpr fun c _ => hnone c]
    rw [key?_eq_some_iff.mpr (hashKey_string hbytes)]
    rfl
  | _ => cases h

theorem isHashable_of_key? (h : v.key? surrogate? = some key) : v.isHashable := by
  cases v with
  | integer | boolean | string => rfl
  | _ => cases h

theorem hashKey_boolean_inj {a b : Bool}
    (h : (boolean a).hashKey surrogate? = (boolean b).hashKey surrogate?) : a = b := by
  cases a <;> cases b <;> first | rfl | cases h

theorem exists_of_hashKey_string {s : String} (h : (string s).hashKey surrogate? = .ok key) :
    ∃ bytes, Text.encodeUtf8 surrogate? s = .ok bytes ∧ key = ⟨.string, Fnv.hash bytes⟩ := by
  rw [hashKey] at h
  split at h
  · next bytes hbytes => exact ⟨bytes, hbytes, (Except.ok.inj h).symm⟩
  · cases h

/-- Values are kept under one key exactly if they are the same key. -/
theorem sameKey_iff : v.SameKey surrogate? w ↔
    ∃ key, v.key? surrogate? = some key ∧ w.key? surrogate? = some key := by
  constructor
  · intro h
    cases h with
    | integer n => exact ⟨_, rfl, rfl⟩
    | boolean b => exact ⟨_, rfl, rfl⟩
    | string hs ht hhash =>
      exact ⟨_, key?_eq_some_iff.mpr (hashKey_string hs),
        hhash ▸ key?_eq_some_iff.mpr (hashKey_string ht)⟩
  · rintro ⟨key, hv, hw⟩
    rw [key?_eq_some_iff] at hv hw
    cases v with
    | integer n =>
      cases hv
      cases w with
      | integer k =>
        have hcode : k.toUInt64 = n.toUInt64 := congrArg HashKey.code (Except.ok.inj hw)
        have hsame : k = n := congrArg Int64.ofUInt64 hcode
        rw [hsame]
        exact .integer n
      | string => obtain ⟨_, -, hkey⟩ := exists_of_hashKey_string hw; cases hkey
      | _ => cases hw
    | boolean a =>
      cases hv
      cases w with
      | boolean b =>
        rw [hashKey_boolean_inj hw]
        exact .boolean a
      | string => obtain ⟨_, -, hkey⟩ := exists_of_hashKey_string hw; cases hkey
      | _ => cases hw
    | string s =>
      obtain ⟨a, hs, rfl⟩ := exists_of_hashKey_string hv
      cases w with
      | string t =>
        obtain ⟨b, ht, hkey⟩ := exists_of_hashKey_string hw
        exact .string hs ht (congrArg HashKey.code hkey)
      | _ => cases hw
    | _ => cases hv

theorem SameKey.of_key? (hv : v.key? surrogate? = some key) (hw : w.key? surrogate? = some key) :
    v.SameKey surrogate? w :=
  sameKey_iff.mpr ⟨key, hv, hw⟩

end Value

/-! ## Evaluation -/

namespace Eval

variable {cx : EvalContext} {frame : FrameId} {m m' m'' : Machine}

theorem evalAll_cons {n : Node} {ns : List Node} {v : Value} {vs : List Value}
    (hn : eval cx frame n m = .ok v m') (hv : v.isError = false)
    (hns : evalAll cx frame ns m' = .ok (.ok vs) m'') :
    evalAll cx frame (n :: ns) m = .ok (.ok (v :: vs)) m'' := by
  rw [evalAll, bind_run_ok hn, hv, if_neg Bool.false_ne_true, bind_run_ok hns]
  rfl

/-- Pairs of trees come to pairs of values, from left to right, the key of each before its
    value. -/
def PairsCome (cx : EvalContext) (frame : FrameId) (pairs : List (Node × Node)) (m : Machine)
    (read : List (Value × Value)) (m' : Machine) : Prop :=
  evalAll cx frame (pairs.flatMap fun p => [p.1, p.2]) m =
    .ok (.ok (read.flatMap fun p => [p.1, p.2])) m'

theorem demand_ok {v : Value} {u : Unit} (h : Operator.demand v m = .ok u m') : m' = m := by
  unfold Operator.demand at h
  split at h <;> cases h
  rfl

theorem keyOf_ok {surrogate? : Text.Surrogates} {v : Value} {key : HashKey}
    (h : Operator.keyOf surrogate? v m = .ok key m') : m' = m ∧ v.key? surrogate? = some key := by
  rw [Operator.keyOf] at h
  cases hkey : v.hashKey surrogate? with
  | ok key' =>
    rw [hkey] at h
    cases h
    exact ⟨rfl, Value.key?_eq_some_iff.mpr hkey⟩
  | error refusal =>
    rw [hkey] at h
    cases h

/-- The evaluation of pairs ends early with an error, or it reads the first pair, sets its value
    under the key of its key value, and goes on. -/
theorem evalPairs_cons_cases {entries : Ordered HashKey (Value × Value)} {keyNode valueNode : Node}
    {rest : List (Node × Node)} {r : Except Value (Ordered HashKey (Value × Value))}
    (h : evalPairs cx frame entries ((keyNode, valueNode) :: rest) m = .ok r m') :
    (∃ e, r = .error e ∧ e.isError) ∨
      ∃ code key value m₁ m₂, eval cx frame keyNode m = .ok key m₁ ∧ key.isError = false ∧
        key.key? cx.surrogate? = some code ∧ eval cx frame valueNode m₁ = .ok value m₂ ∧
        value.isError = false ∧
        evalPairs cx frame (entries.insert code (key, value)) rest m₂ = .ok r m' := by
  rw [evalPairs] at h
  obtain ⟨key, m₁, hkey, h⟩ := exists_of_bind_ok h
  by_cases hkeyError : key.isError
  · rw [if_pos hkeyError] at h
    cases h
    exact .inl ⟨key, rfl, hkeyError⟩
  rw [if_neg hkeyError] at h
  obtain ⟨u, m₂, hdemand, h⟩ := exists_of_bind_ok h
  rw [demand_ok hdemand] at h
  by_cases hhashable : key.isHashable
  · rw [if_pos hhashable] at h
    obtain ⟨value, m₃, hvalue, h⟩ := exists_of_bind_ok h
    by_cases hvalueError : value.isError
    · rw [if_pos hvalueError] at h
      cases h
      exact .inl ⟨value, rfl, hvalueError⟩
    · rw [if_neg hvalueError] at h
      obtain ⟨code, m₄, hkeyOf, hrest⟩ := exists_of_bind_ok h
      obtain ⟨rfl, hcode⟩ := keyOf_ok hkeyOf
      exact .inr ⟨code, key, value, m₁, m₄, hkey, eq_false_of_ne_true hkeyError, hcode, hvalue,
        eq_false_of_ne_true hvalueError, hrest⟩
  · rw [if_neg hhashable] at h
    cases h
    exact .inl ⟨_, rfl, rfl⟩

/-- What ends the evaluation of pairs early is an error. -/
theorem evalPairs_error {entries : Ordered HashKey (Value × Value)} {pairs : List (Node × Node)}
    {e : Value} (h : evalPairs cx frame entries pairs m = .ok (.error e) m') : e.isError := by
  induction pairs generalizing entries m with
  | nil =>
    rw [evalPairs] at h
    cases h
  | cons pair rest ih =>
    rcases evalPairs_cons_cases h with ⟨_, heq, herror⟩ | ⟨_, _, _, _, _, _, _, _, _, _, hrest⟩
    · cases heq
      exact herror
    · exact ih hrest

/-- The entries that pairs give are those they have when they are set one after the other, each
    under the key of its own key value. -/
theorem evalPairs_ok {entries es : Ordered HashKey (Value × Value)} {pairs : List (Node × Node)}
    (h : evalPairs cx frame entries pairs m = .ok (.ok es) m') :
    ∃ read : List (HashKey × (Value × Value)),
      PairsCome cx frame pairs m (read.map Prod.snd) m' ∧
      (∀ r ∈ read, r.2.1.key? cx.surrogate? = some r.1) ∧ es = entries.setAll read := by
  induction pairs generalizing entries m with
  | nil =>
    rw [evalPairs] at h
    cases h
    exact ⟨[], by rw [PairsCome]; rfl, List.forall_mem_nil _, rfl⟩
  | cons pair rest ih =>
    rcases evalPairs_cons_cases h with
      ⟨_, heq, -⟩ | ⟨code, key, value, m₁, m₂, hkey, hkeyOk, hcode, hvalue, hvalueOk, hrest⟩
    · cases heq
    · obtain ⟨read, hcome, hkeys, hes⟩ := ih hrest
      refine ⟨(code, (key, value)) :: read, ?_, List.forall_mem_cons.mpr ⟨hcode, hkeys⟩, hes⟩
      exact evalAll_cons hkey hkeyOk (evalAll_cons hvalue hvalueOk hcome)

/-- The evaluation of a hash literal that comes to a hash has read all its pairs. -/
theorem eval_hash_ok {pairs : List (Node × Node)} {token : Option Token} {id : ObjectId}
    {es : List (HashKey × (Value × Value))}
    (h : eval cx frame (.hash pairs token) m = .ok (.hash id es) m') :
    ∃ (read : List (HashKey × (Value × Value))) (m₁ m₂ : Machine),
      trace cx.tracing (.hash pairs token) m = .ok () m₁ ∧
      PairsCome cx frame pairs m₁ (read.map Prod.snd) m₂ ∧
      (∀ r ∈ read, r.2.1.key? cx.surrogate? = some r.1) ∧ es = Ordered.setAll [] read := by
  rw [eval] at h
  obtain ⟨u, m₁, htrace, h⟩ := exists_of_bind_ok h
  obtain ⟨r, m₂, hpairs, h⟩ := exists_of_bind_ok h
  cases r with
  | error e =>
    cases h
    cases evalPairs_error hpairs
  | ok entries =>
    cases h
    obtain ⟨read, hcome, hkeys, hes⟩ := evalPairs_ok hpairs
    exact ⟨read, m₁, m₂, htrace, hcome, hkeys, hes⟩

section Entries

variable {surrogate? : Text.Surrogates} {read : List (HashKey × (Value × Value))}

/-- An entry of a map of pairs is one of the pairs, with the same key. -/
theorem mem_of_find?_setAll (hkeys : ∀ r ∈ read, r.2.1.key? surrogate? = some r.1) {k : Value}
    {key : HashKey} (hk : k.key? surrogate? = some key) {entry : Value × Value}
    (h : Ordered.find? key (Ordered.setAll [] read) = some entry) :
    entry ∈ read.map Prod.snd ∧ k.SameKey surrogate? entry.1 := by
  rw [Ordered.find?_setAll, Ordered.find?_nil, Option.or_none] at h
  have hmem : (key, entry) ∈ read := List.mem_reverse.mp (Ordered.mem_of_find? h)
  exact ⟨List.mem_map_of_mem hmem, .of_key? hk (hkeys _ hmem)⟩

/-- A pair is kept in a map of pairs if no pair after it has the same key. -/
theorem find?_setAll_of_last (hkeys : ∀ r ∈ read, r.2.1.key? surrogate? = some r.1)
    {front back : List (Value × Value)} {pair : Value × Value}
    (hread : read.map Prod.snd = front ++ pair :: back)
    (hlast : ∀ later ∈ back, ¬ pair.1.SameKey surrogate? later.1) :
    ∃ key, pair.1.key? surrogate? = some key ∧
      Ordered.find? key (Ordered.setAll [] read) = some pair := by
  obtain ⟨before, after, rfl, -, hafter⟩ := List.map_eq_append_iff.mp hread
  obtain ⟨r, behind, rfl, rfl, rfl⟩ := List.map_eq_cons_iff.mp hafter
  obtain ⟨key, pair⟩ := r
  have hkey : pair.1.key? surrogate? = some key := hkeys (key, pair) (by simp)
  refine ⟨key, hkey, ?_⟩
  have hnone : Ordered.find? key behind.reverse = none := by
    rw [Ordered.find?_eq_none_iff]
    intro hmem
    obtain ⟨later, hlater, heq⟩ := List.mem_map.mp hmem
    have hbehind : later ∈ behind := List.mem_reverse.mp hlater
    have hlaterKey : later.2.1.key? surrogate? = some key := heq ▸ hkeys later (by simp [hbehind])
    exact hlast later.2 (List.mem_map_of_mem hbehind) (.of_key? hkey hlaterKey)
  rw [Ordered.find?_setAll, Ordered.find?_nil, Option.or_none, List.reverse_append,
    List.reverse_cons, Ordered.find?_append, Ordered.find?_append, hnone, Ordered.find?_cons,
    if_pos rfl]
  rfl

end Entries

theorem keyOf_of_key? {surrogate? : Text.Surrogates} {v : Value} {key : HashKey}
    (h : v.key? surrogate? = some key) : Operator.keyOf surrogate? v = pure key := by
  rw [Operator.keyOf, Value.key?_eq_some_iff.mp h]

theorem demand_of_isHashable {v : Value} (h : v.isHashable) : Operator.demand v = pure () := by
  cases v <;> first | rfl | cases h

theorem applyIndex_hash {surrogate? : Text.Surrogates} (id : ObjectId)
    (es : List (HashKey × (Value × Value))) {k : Value} {key : HashKey}
    (hk : k.key? surrogate? = some key) (m : Machine) :
    Operator.applyIndex surrogate? (.hash id es) k m =
      .ok (((Ordered.find? key es).map Prod.snd).getD .null) m := by
  have hhashable := Value.isHashable_of_key? hk
  show (Operator.demand k >>= fun _ => _) m = _
  rw [demand_of_isHashable hhashable, pure_bind, if_pos hhashable, keyOf_of_key? hk, pure_bind]
  rfl

/-- The entries of a hash keep pairs with different keys apart: an index finds the value of the
    entry under its key, an entry that is found is a pair that was read, with the same key, and
    a pair is found under its key unless a later one has the same key. -/
structure KeptApart (surrogate? : Text.Surrogates) (read : List (Value × Value))
    (es : List (HashKey × (Value × Value))) : Prop where
  indexed : ∀ id (k : Value) key m, k.key? surrogate? = some key →
    Operator.applyIndex surrogate? (.hash id es) k m =
      .ok (((Ordered.find? key es).map Prod.snd).getD .null) m
  found : ∀ (k : Value) key entry, k.key? surrogate? = some key →
    Ordered.find? key es = some entry → entry ∈ read ∧ k.SameKey surrogate? entry.1
  kept : ∀ front pair back, read = front ++ pair :: back →
    (∀ later ∈ back, ¬ pair.1.SameKey surrogate? later.1) →
      ∃ key, pair.1.key? surrogate? = some key ∧ Ordered.find? key es = some pair

/-- Values are kept under one key exactly if they are the same integer, the same boolean, or
    strings with the same hash.  A hash literal that comes to a hash has read all its pairs and
    keeps those with different keys apart. -/
theorem eval_hash_apart {pairs : List (Node × Node)} {token : Option Token} {id : ObjectId}
    {es : List (HashKey × (Value × Value))}
    (h : eval cx frame (.hash pairs token) m = .ok (.hash id es) m') :
    (∀ v w : Value, v.SameKey cx.surrogate? w ↔
      ∃ key, v.key? cx.surrogate? = some key ∧ w.key? cx.surrogate? = some key) ∧
    ∃ (read : List (Value × Value)) (m₁ m₂ : Machine),
      trace cx.tracing (.hash pairs token) m = .ok () m₁ ∧
      PairsCome cx frame pairs m₁ read m₂ ∧ KeptApart cx.surrogate? read es := by
  obtain ⟨read, m₁, m₂, htrace, hcome, hkeys, rfl⟩ := eval_hash_ok h
  refine ⟨fun v w => Value.sameKey_iff, read.map Prod.snd, m₁, m₂, htrace, hcome, ?_⟩
  constructor
  case indexed =>
    intro id k key m hk
    exact applyIndex_hash id _ hk m
  case found =>
    intro k key entry hk hentry
    exact mem_of_find?_setAll hkeys hk hentry
  case kept =>
    intro front pair back hread hlast
    exact find?_setAll_of_last hkeys hread hlast

/-- Keys of three types with one of them repeated: four pairs are read, and three are kept. -/
theorem eval_hash_apart_mixed :
    let pairs : List (Node × Node) :=
      [(.integer 1 none, .string "a" none), (.boolean true none, .string "b" none),
        (.string "1" none, .string "c" none), (.integer 1 none, .string "d" none)]
    let cx := contextOfDepth { builtins := [], callLimit := 0 } 0
    ∃ id es m', eval cx 0 (.hash pairs none) {} = .ok (.hash id es) m' ∧ es.length = 3 ∧
      (∀ v w : Value, v.SameKey cx.surrogate? w ↔
      ∃ key, v.key? cx.surrogate? = some key ∧ w.key? cx.surrogate? = some key) ∧
      ∃ (read : List (Value × Value)) (m₁ m₂ : Machine),
        trace cx.tracing (.hash pairs none) {} = .ok () m₁ ∧
        PairsCome cx 0 pairs m₁ read m₂ ∧ KeptApart cx.surrogate? read es := by
  intro pairs cx
  obtain ⟨id, es, m', h, hlength⟩ : ∃ id es m',
      eval cx 0 (.hash pairs none) {} = .ok (.hash id es) m' ∧ es.length = 3 :=
    ⟨_, _, _, rfl, rfl⟩
  exact ⟨id, es, m', h, hlength, eval_hash_apart h⟩

/-- Two strings with one hash.  An index that is no key of a literal finds the value of another,
    and of two pairs with different keys one is lost. -/
theorem eval_hash_aliases :
    let s := "8yn0iYCKYHlIj4-BwPqk"
    let t := "GReLUrM4wMqfg9yzV3KQ"
    s ≠ t ∧ (Value.string s).hashKey (fun _ => none) = (Value.string t).hashKey (fun _ => none) ∧
      (∃ answer session, (Session.start { callLimit := 100 }).run
          "\x7b\"8yn0iYCKYHlIj4-BwPqk\": 1\x7d[\"GReLUrM4wMqfg9yzV3KQ\"]" = .ok (answer, session) ∧
        answer.outcome = .finished (.integer 1)) ∧
      ∃ id key m, eval (contextOfDepth { builtins := [], callLimit := 0 } 0) 0
          (.hash [(.string s none, .integer 1 none), (.string t none, .integer 2 none)] none) {} =
        .ok (.hash id [(key, (.string t, .integer 2))]) m :=
  ⟨by decide, rfl, ⟨_, _, rfl, rfl⟩, _, _, _, rfl⟩

end Eval

end Monkey
