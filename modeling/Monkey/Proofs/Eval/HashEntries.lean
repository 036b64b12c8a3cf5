import Mathlib.Data.List.Induction
import Monkey.Proofs.Eval.HashLiteral

/-!
# Entries of hash literals

A hash literal whose keys can all be keys comes to a hash.  It has one entry for each key of its
pairs, in the order in which the keys occur first, and an entry holds the key value and the value of
the last pair with its key.
-/

namespace Monkey

/-! ## Maps of pairs -/

namespace Ordered

variable {κ ν : Type} [DecidableEq κ]

theorem setAll_concat (m : Ordered κ ν) (ps : List (κ × ν)) (p : κ × ν) :
    m.setAll (ps ++ [p]) = (m.setAll ps).insert p.1 p.2 :=
  List.foldl_append ..

theorem eraseDups_concat (ks : List κ) (k : κ) :
    (ks ++ [k]).eraseDups = if k ∈ ks then ks.eraseDups else ks.eraseDups ++ [k] := by
  rw [List.eraseDups_append]
  by_cases h : k ∈ ks <;> simp [List.removeAll, h, List.eraseDups_cons]

/-- The keys of pairs that are set one after the other stand in the order in which they occur
    first. -/
theorem keys_setAll (ps : List (κ × ν)) : keys (setAll [] ps) = (keys ps).eraseDups := by
  induction ps using List.reverseRecOn with
  | nil => rfl
  | append_singleton ps p ih =>
    have hkeys : keys (ps ++ [p]) = keys ps ++ [p.1] := List.map_append
    rw [setAll_concat, keys_insert, ih, hkeys, eraseDups_concat]
    simp only [List.mem_eraseDups]

theorem nodup_keys_insert {m : Ordered κ ν} (hm : (keys m).Nodup) (key : κ) (value : ν) :
    (keys (insert key value m)).Nodup := by
  rw [keys_insert]
  by_cases h : key ∈ keys m
  · rwa [if_pos h]
  · rw [if_neg h]
    refine List.nodup_append.mpr ⟨hm, List.pairwise_singleton _ key, fun k hk k' hk' heq => h ?_⟩
    rwa [← List.mem_singleton.mp hk', ← heq]

theorem nodup_keys_setAll (ps : List (κ × ν)) : (keys (setAll [] ps)).Nodup := by
  induction ps using List.reverseRecOn with
  | nil => exact List.nodup_nil
  | append_singleton ps p ih =>
    rw [setAll_concat]
    exact nodup_keys_insert ih p.1 p.2

/-- A map in which no key is repeated has the entries that are found under its keys, in their
    order. -/
theorem eq_filterMap_keys {m : Ordered κ ν} (hm : (keys m).Nodup) :
    m = (keys m).filterMap fun k => (find? k m).map (Prod.mk k) := by
  induction m with
  | nil => rfl
  | cons p rest ih =>
    obtain ⟨k, v⟩ := p
    rw [keys_cons, List.nodup_cons] at hm
    have hrest : ∀ k' ∈ keys rest, find? k' ((k, v) :: rest) = find? k' rest := by
      intro k' hk'
      have hne : k ≠ k' := fun heq => hm.1 (heq ▸ hk')
      rw [find?_cons, if_neg hne]
    rw [keys_cons, List.filterMap_cons, find?_cons, if_pos rfl]
    refine congrArg (List.cons (k, v)) ((ih hm.2).trans (List.filterMap_congr fun k' hk' => ?_))
    rw [hrest k' hk']

end Ordered

/-! ## Pairs that are read -/

/-- The keys of pairs in the order in which they occur first. -/
def keysRead (surrogate? : Text.Surrogates) (read : List (Value × Value)) : List HashKey :=
  (read.filterMap fun p => p.1.key? surrogate?).eraseDups

/-- The last pair with a key. -/
def lastPair? (surrogate? : Text.Surrogates) (read : List (Value × Value)) (key : HashKey) :
    Option (Value × Value) :=
  (read.filter fun p => p.1.key? surrogate? = some key).getLast?

section Coded

variable {surrogate? : Text.Surrogates} {coded : List (HashKey × (Value × Value))}

/-- Pairs whose key values have keys, each with its key. -/
theorem exists_coded {read : List (Value × Value)}
    (h : ∀ p ∈ read, (p.1.key? surrogate?).isSome) :
    ∃ coded : List (HashKey × (Value × Value)), coded.map Prod.snd = read ∧
      ∀ r ∈ coded, r.2.1.key? surrogate? = some r.1 := by
  induction read with
  | nil => exact ⟨[], rfl, List.forall_mem_nil _⟩
  | cons p read ih =>
    rw [List.forall_mem_cons] at h
    obtain ⟨key, hkey⟩ := Option.isSome_iff_exists.mp h.1
    obtain ⟨coded, rfl, hcoded⟩ := ih h.2
    exact ⟨(key, p) :: coded, rfl, List.forall_mem_cons.mpr ⟨hkey, hcoded⟩⟩

theorem keysRead_coded (h : ∀ r ∈ coded, r.2.1.key? surrogate? = some r.1) :
    keysRead surrogate? (coded.map Prod.snd) = Ordered.keys (Ordered.setAll [] coded) := by
  unfold keysRead
  rw [Ordered.keys_setAll, List.filterMap_map]
  refine congrArg List.eraseDups ?_
  induction coded with
  | nil => rfl
  | cons r coded ih =>
    rw [List.forall_mem_cons] at h
    rw [List.filterMap_cons, Function.comp_apply, h.1, ih h.2]
    rfl

theorem lastPair?_coded (h : ∀ r ∈ coded, r.2.1.key? surrogate? = some r.1) (key : HashKey) :
    lastPair? surrogate? (coded.map Prod.snd) key =
      Ordered.find? key (Ordered.setAll [] coded) := by
  unfold lastPair?
  rw [List.getLast?_filter, Ordered.find?_setAll, Ordered.find?_nil, Option.or_none,
    ← List.map_reverse]
  have hreverse : ∀ r ∈ coded.reverse, r.2.1.key? surrogate? = some r.1 :=
    fun r hr => h r (List.mem_reverse.mp hr)
  generalize coded.reverse = later at hreverse
  induction later with
  | nil => rfl
  | cons r later ih =>
    rw [List.forall_mem_cons] at hreverse
    rw [List.map_cons, List.find?_cons, Ordered.find?_cons, ih hreverse.2, hreverse.1]
    by_cases hkey : r.1 = key <;> simp [hkey]

end Coded

/-! ## Evaluation -/

namespace Eval

variable {cx : EvalContext} {frame : FrameId} {m m' m₁ m₂ : Machine}

/-- Several trees come to values one after the other. -/
theorem evalAll_cons_ok {n : Node} {ns : List Node} {vs : List Value}
    (h : evalAll cx frame (n :: ns) m = .ok (.ok vs) m') :
    ∃ v vs' m₁, eval cx frame n m = .ok v m₁ ∧ v.isError = false ∧
      evalAll cx frame ns m₁ = .ok (.ok vs') m' ∧ vs = v :: vs' := by
  rw [evalAll] at h
  obtain ⟨v, m₁, hv, h⟩ := exists_of_bind_ok h
  by_cases herror : v.isError
  · rw [if_pos herror] at h
    cases h
  rw [if_neg herror] at h
  obtain ⟨r, m₂, hns, h⟩ := exists_of_bind_ok h
  cases r with
  | error => cases h
  | ok vs' =>
    cases h
    exact ⟨v, vs', m₁, hv, eq_false_of_ne_true herror, hns, rfl⟩

/-- Pairs that come to pairs of values whose keys can be keys are set one after the other. -/
theorem evalPairs_of_come {coded : List (HashKey × (Value × Value))}
    (hcoded : ∀ r ∈ coded, r.2.1.key? cx.surrogate? = some r.1)
    {pairs : List (Node × Node)} (h : PairsCome cx frame pairs m (coded.map Prod.snd) m')
    (entries : Ordered HashKey (Value × Value)) :
    evalPairs cx frame entries pairs m = .ok (.ok (entries.setAll coded)) m' := by
  induction pairs generalizing coded entries m with
  | nil =>
    cases coded with
    | nil =>
      cases h
      rw [evalPairs]
      rfl
    | cons => cases h
  | cons pair pairs ih =>
    obtain ⟨keyNode, valueNode⟩ := pair
    obtain ⟨key, vs, m₁, hkey, hkeyOk, hvs, heq⟩ := evalAll_cons_ok h
    obtain ⟨value, vs', m₂, hvalue, hvalueOk, hrest, rfl⟩ := evalAll_cons_ok hvs
    cases coded with
    | nil => cases heq
    | cons r coded =>
      obtain ⟨code, key', value'⟩ := r
      cases heq
      rw [List.forall_mem_cons] at hcoded
      have hcode : key'.key? cx.surrogate? = some code := hcoded.1
      have hhashable := Value.isHashable_of_key? hcode
      rw [evalPairs, bind_run_ok hkey, hkeyOk, if_neg Bool.false_ne_true,
        demand_of_isHashable hhashable, pure_bind, if_pos hhashable, bind_run_ok hvalue, hvalueOk,
        if_neg Bool.false_ne_true, keyOf_of_key? hcode, pure_bind]
      exact ih hcoded.2 hrest _

/-- The entries of a hash are those of pairs in which the last of every key counts: there is one
    for every key, in the order in which the keys occur first, with the key value and the value of
    the last pair with its key, whose key value has that key.  An index finds the value of the last
    pair with its key, and `null` if there is none.  The entries are shown in their order. -/
structure KeepsLast (surrogate? : Text.Surrogates) (read : List (Value × Value))
    (es : List (HashKey × (Value × Value))) : Prop where
  keys : Ordered.keys es = keysRead surrogate? read
  entries : ∀ e ∈ es, lastPair? surrogate? read e.1 = some e.2 ∧ e.2.1.key? surrogate? = some e.1
  indexed : ∀ id (k : Value) key m, k.key? surrogate? = some key →
    Operator.applyIndex surrogate? (.hash id es) k m =
      .ok (((lastPair? surrogate? read key).map Prod.snd).getD .null) m
  shown : ∀ id, (Value.hash id es).inspect = "\x7b" ++ Text.joined ", "
    ((keysRead surrogate? read).filterMap fun key => (lastPair? surrogate? read key).map fun p =>
      p.1.inspect ++ ": " ++ p.2.inspect) ++ "\x7d"

theorem inspect_hash (id : ObjectId) (es : List (HashKey × (Value × Value))) :
    (Value.hash id es).inspect = "\x7b" ++ Text.joined ", "
      (es.map fun e => e.2.1.inspect ++ ": " ++ e.2.2.inspect) ++ "\x7d" := by
  rw [← Value.inspectEntries_eq_map]
  rfl

theorem keepsLast_setAll {surrogate? : Text.Surrogates} {coded : List (HashKey × (Value × Value))}
    (hcoded : ∀ r ∈ coded, r.2.1.key? surrogate? = some r.1) :
    KeepsLast surrogate? (coded.map Prod.snd) (Ordered.setAll [] coded) := by
  have hkeys := keysRead_coded hcoded
  have hlast := lastPair?_coded hcoded
  have hentries := Ordered.eq_filterMap_keys (Ordered.nodup_keys_setAll coded)
  generalize Ordered.setAll [] coded = es at hkeys hlast hentries
  constructor
  case keys => exact hkeys.symm
  case entries =>
    intro e he
    rw [hentries] at he
    obtain ⟨key, -, he⟩ := List.mem_filterMap.mp he
    obtain ⟨p, hp, rfl⟩ := Option.map_eq_some_iff.mp he
    have hpair : lastPair? surrogate? (coded.map Prod.snd) key = some p := (hlast key).trans hp
    refine ⟨hpair, ?_⟩
    have hmem := List.mem_of_getLast? hpair
    exact of_decide_eq_true (List.mem_filter.mp hmem).2
  case indexed =>
    intro id k key m hk
    rw [hlast]
    exact applyIndex_hash id es hk m
  case shown =>
    intro id
    have hshown : es.map (fun e => e.2.1.inspect ++ ": " ++ e.2.2.inspect) =
        (Ordered.keys es).filterMap fun key =>
          (Ordered.find? key es).map fun p => p.1.inspect ++ ": " ++ p.2.inspect := by
      conv_lhs => rw [hentries]
      rw [List.map_filterMap]
      simp only [Option.map_map]
      rfl
    rw [inspect_hash, hshown, hkeys]
    simp only [hlast]

/-- A hash literal whose pairs come to values, whose key values have keys, comes to a new hash that
    keeps the last pair of every key. -/
theorem eval_hash_keepsLast {pairs : List (Node × Node)} {token : Option Token}
    {read : List (Value × Value)} (htrace : trace cx.tracing (.hash pairs token) m = .ok () m₁)
    (hcome : PairsCome cx frame pairs m₁ read m₂)
    (hkeys : ∀ p ∈ read, (p.1.key? cx.surrogate?).isSome) :
    ∃ es, eval cx frame (.hash pairs token) m =
        .ok (.hash m₂.nextObject es) { m₂ with nextObject := m₂.nextObject + 1 } ∧
      KeepsLast cx.surrogate? read es := by
  obtain ⟨coded, rfl, hcoded⟩ := exists_coded hkeys
  refine ⟨Ordered.setAll [] coded, ?_, keepsLast_setAll hcoded⟩
  rw [eval, bind_run_ok htrace]
  exact (bind_run_ok (evalPairs_of_come hcoded hcome []) _).trans rfl

/-- A boolean stands between two strings that are one key, and is repeated behind them.  The first
    entry has the place of the first string, and the second string as its key value. -/
theorem eval_hash_keepsLast_interleaved :
    let s := "8yn0iYCKYHlIj4-BwPqk"
    let t := "GReLUrM4wMqfg9yzV3KQ"
    let pairs : List (Node × Node) :=
      [(.string s none, .integer 1 none), (.boolean true none, .integer 2 none),
        (.string t none, .integer 3 none), (.boolean true none, .integer 4 none)]
    let read : List (Value × Value) :=
      [(.string s, .integer 1), (.boolean true, .integer 2), (.string t, .integer 3),
        (.boolean true, .integer 4)]
    let cx := contextOfDepth { builtins := [], callLimit := 0 } 0
    trace cx.tracing (.hash pairs none) {} = .ok () {} ∧ PairsCome cx 0 pairs {} read {} ∧
      (∀ p ∈ read, (p.1.key? cx.surrogate?).isSome) ∧
      ∃ es, eval cx 0 (.hash pairs none) {} = .ok (.hash 0 es) { nextObject := 1 } ∧
        KeepsLast cx.surrogate? read es ∧
        es.map Prod.snd = [(.string t, .integer 3), (.boolean true, .integer 4)] ∧
        (Value.hash 0 es).inspect = "\x7bGReLUrM4wMqfg9yzV3KQ: 3, true: 4\x7d" := by
  intro s t pairs read cx
  have htrace : trace cx.tracing (.hash pairs none) {} = .ok () {} := rfl
  have hcome : PairsCome cx 0 pairs {} read {} := rfl
  have hhashable : ∀ p ∈ read, p.1.isHashable := by decide
  have hkeys : ∀ p ∈ read, (p.1.key? cx.surrogate?).isSome := fun p hp =>
    Value.isSome_key?_of_isHashable (hhashable p hp) fun _ => rfl
  refine ⟨htrace, hcome, hkeys, ?_⟩
  obtain ⟨es, heval, hkeeps⟩ := eval_hash_keepsLast htrace hcome hkeys
  refine ⟨es, heval, hkeeps, ?_⟩
  -- The strings are written out: those that are named are not computed with.
  obtain ⟨j, k, m, hes⟩ : ∃ j k m, eval cx 0
      (.hash [(.string "8yn0iYCKYHlIj4-BwPqk" none, .integer 1 none),
        (.boolean true none, .integer 2 none),
        (.string "GReLUrM4wMqfg9yzV3KQ" none, .integer 3 none),
        (.boolean true none, .integer 4 none)] none) {} =
      .ok (.hash 0 [(j, (.string t, .integer 3)), (k, (.boolean true, .integer 4))]) m :=
    ⟨_, _, _, rfl⟩
  cases heval.symm.trans hes
  exact ⟨rfl, rfl⟩

end Eval

end Monkey
