import Monkey.Proofs.Node.Likeness
import Monkey.Proofs.Node.Names
import Monkey.Proofs.Value.Everywhere
import Monkey.Value.Inspect

/-!
# Values of two machines that are the same

The numbers of objects and frames say only which are the same and which are not.  A kinship says
which objects and frames of one machine are which of another, and which bodies of functions are
the same.  Under it, values are the same if they are built alike.  What evaluation asks of a value
is the same then: its type, its text, its key, and whether it is the same object as another.
-/

namespace Monkey

/-! ## Ordered maps -/

namespace Ordered

/-- Maps with the same keys in the same order and related values. -/
inductive Rel {κ ν μ : Type} (related : ν → μ → Prop) : Ordered κ ν → Ordered κ μ → Prop
  | nil : Rel related [] []
  | cons (key : κ) {v : ν} {w : μ} {m : Ordered κ ν} {n : Ordered κ μ} :
      related v w → Rel related m n → Rel related ((key, v) :: m) ((key, w) :: n)

namespace Rel

variable {κ ν μ : Type} {related related' : ν → μ → Prop} {m : Ordered κ ν} {n : Ordered κ μ}

theorem mono (hm : Rel related m n) (h : ∀ v w, related v w → related' v w) :
    Rel related' m n := by
  induction hm with
  | nil => exact .nil
  | cons key hvw _ ih => exact .cons key (h _ _ hvw) ih

theorem of_forall_mem {related : ν → ν → Prop} {es : Ordered κ ν}
    (h : ∀ e ∈ es, related e.2 e.2) : Rel related es es := by
  induction es with
  | nil => exact .nil
  | cons e es ih =>
    rw [List.forall_mem_cons] at h
    exact .cons e.1 h.1 (ih h.2)

variable [DecidableEq κ]

theorem find? (hm : Rel related m n) (key : κ) :
    Option.Rel related (Ordered.find? key m) (Ordered.find? key n) := by
  induction hm with
  | nil => exact .none
  | cons k hvw _ ih =>
    rw [find?_cons, find?_cons]
    by_cases hk : k = key
    · rw [if_pos hk, if_pos hk]
      exact .some hvw
    · rw [if_neg hk, if_neg hk]
      exact ih

theorem insert (hm : Rel related m n) (key : κ) {v : ν} {w : μ} (hvw : related v w) :
    Rel related (Ordered.insert key v m) (Ordered.insert key w n) := by
  induction hm with
  | nil => exact .cons key hvw .nil
  | cons k h hm ih =>
    rw [Ordered.insert, Ordered.insert]
    by_cases hk : k = key
    · rw [if_pos hk, if_pos hk]
      exact .cons key hvw hm
    · rw [if_neg hk, if_neg hk]
      exact .cons k h ih

end Rel

end Ordered

/-! ## Kinships -/

/-- Which objects and which frames of one machine are which of another, and which functions, given
    by their parameters and their bodies, are written alike.  None is two of the other machine. -/
structure Kinship where
  objects : ObjectId → ObjectId → Prop
  frames : FrameId → FrameId → Prop
  code : List Name → Node → List Name → Node → Prop
  objects_iff : ∀ {i j i' j'}, objects i j → objects i' j' → (i = i' ↔ j = j')
  values_eq : ∀ {xs b ys c}, code xs b ys c → xs.map Name.value = ys.map Name.value
  text_eq : ∀ {xs b ys c}, code xs b ys c → b.text = c.text

/-- What is the same under one kinship is the same under another. -/
structure Kinship.Grows (k l : Kinship) : Prop where
  objects : ∀ {i j}, k.objects i j → l.objects i j
  frames : ∀ {i j}, k.frames i j → l.frames i j
  code : ∀ {xs b ys c}, k.code xs b ys c → l.code xs b ys c

mutual

/-- Values are the same under a kinship. -/
inductive Value.Related (k : Kinship) : Value → Value → Prop
  | integer (n : Int64) : Value.Related k (.integer n) (.integer n)
  | boolean (b : Bool) : Value.Related k (.boolean b) (.boolean b)
  | string (s : String) : Value.Related k (.string s) (.string s)
  | null : Value.Related k .null .null
  | array {i j : ObjectId} {vs ws : List Value} : k.objects i j →
      List.Forall₂ (Value.Related k) vs ws → Value.Related k (.array i vs) (.array j ws)
  | hash {i j : ObjectId} {es fs : List (HashKey × (Value × Value))} : k.objects i j →
      Ordered.Rel (Value.RelatedTwice k) es fs → Value.Related k (.hash i es) (.hash j fs)
  | function {i j : ObjectId} {f g : FrameId} {xs ys : List Name} {b c : Node} : k.objects i j →
      k.frames f g → k.code xs b ys c →
      Value.Related k (.function i xs b f) (.function j ys c g)
  | builtin (b : Builtin) : Value.Related k (.builtin b) (.builtin b)
  | returned {i j : ObjectId} {v w : Value} : k.objects i j → Value.Related k v w →
      Value.Related k (.returned i v) (.returned j w)
  | error {i j : ObjectId} (message : String) : k.objects i j →
      Value.Related k (.error i message) (.error j message)
  | tagged {i j : ObjectId} (tag : String) : k.objects i j →
      Value.Related k (.tagged i tag) (.tagged j tag)
  | absent : Value.Related k .absent .absent

/-- A key and a value are the same as another two. -/
inductive Value.RelatedTwice (k : Kinship) : Value × Value → Value × Value → Prop
  | mk {key key' v v' : Value} : Value.Related k key key' → Value.Related k v v' →
      Value.RelatedTwice k (key, v) (key', v')

end

namespace Value

/-- What a value is itself, apart from the values that it holds, is the same on both machines. -/
def Own (k : Kinship) : Value → Prop
  | array id _ | hash id _ | returned id _ | error id _ | tagged id _ => k.objects id id
  | function id xs b f => k.objects id id ∧ k.frames f f ∧ k.code xs b xs b
  | integer _ | boolean _ | string _ | null | builtin _ | absent => True

namespace Related

variable {k l : Kinship} {v v' w w' : Value}

mutual

/-- Values that are the same stay the same under a kinship that grows. -/
theorem mono_of_grows (h : k.Grows l) : (v w : Value) → Related k v w → Related l v w
  | .array _ vs, _, hv => by
    cases hv with
    | array hij hvs => exact .array (h.objects hij) (forall₂_of_grows h vs _ hvs)
  | .hash _ es, _, hv => by
    cases hv with
    | hash hij hes => exact .hash (h.objects hij) (rel_of_grows h es _ hes)
  | .returned _ v, _, hv => by
    cases hv with
    | returned hij hv => exact .returned (h.objects hij) (mono_of_grows h v _ hv)
  | .function .., _, hv => by
    cases hv with
    | function hij hfg hcode => exact .function (h.objects hij) (h.frames hfg) (h.code hcode)
  | .error _ message, _, hv => by cases hv with | error _ hij => exact .error _ (h.objects hij)
  | .tagged _ tag, _, hv => by cases hv with | tagged _ hij => exact .tagged _ (h.objects hij)
  | .integer n, _, hv => by cases hv; exact .integer n
  | .boolean b, _, hv => by cases hv; exact .boolean b
  | .string s, _, hv => by cases hv; exact .string s
  | .null, _, hv => by cases hv; exact .null
  | .builtin b, _, hv => by cases hv; exact .builtin b
  | .absent, _, hv => by cases hv; exact .absent

theorem forall₂_of_grows (h : k.Grows l) : (vs ws : List Value) →
    List.Forall₂ (Related k) vs ws → List.Forall₂ (Related l) vs ws
  | [], _, hvs => by cases hvs; exact .nil
  | v :: vs, _, hvs => by
    cases hvs with
    | cons hv hvs => exact .cons (mono_of_grows h v _ hv) (forall₂_of_grows h vs _ hvs)

theorem rel_of_grows (h : k.Grows l) : (es fs : List (HashKey × (Value × Value))) →
    Ordered.Rel (RelatedTwice k) es fs → Ordered.Rel (RelatedTwice l) es fs
  | [], _, hes => by cases hes; exact .nil
  | (code, (key, value)) :: es, _, hes => by
    cases hes with
    | cons _ hpair hes =>
      cases hpair with
      | mk hkey hvalue =>
        exact .cons code (.mk (mono_of_grows h key _ hkey) (mono_of_grows h value _ hvalue))
          (rel_of_grows h es _ hes)

end

theorem mono (hv : Related k v w) (h : k.Grows l) : Related l v w := mono_of_grows h v w hv

theorem forall₂_mono {vs ws : List Value} (hvs : List.Forall₂ (Related k) vs ws) (h : k.Grows l) :
    List.Forall₂ (Related l) vs ws :=
  forall₂_of_grows h vs ws hvs

theorem rel_mono {es fs : Ordered HashKey (Value × Value)}
    (hes : Ordered.Rel (RelatedTwice k) es fs) (h : k.Grows l) :
    Ordered.Rel (RelatedTwice l) es fs :=
  rel_of_grows h es fs hes

theorem typeName_eq (h : Related k v w) : v.typeName = w.typeName := by
  cases h <;> rfl

theorem isError_eq (h : Related k v w) : v.isError = w.isError := by
  cases h <;> rfl

theorem isAbsent_eq (h : Related k v w) : v.isAbsent = w.isAbsent := by
  cases h <;> rfl

theorem isTruthy_eq (h : Related k v w) : v.isTruthy = w.isTruthy := by
  cases h <;> rfl

theorem isHashable_eq (h : Related k v w) : v.isHashable = w.isHashable := by
  cases h <;> rfl

theorem hashKey_eq (h : Related k v w) (surrogate? : Text.Surrogates) :
    v.hashKey surrogate? = w.hashKey surrogate? := by
  cases h <;> rfl

mutual

-- `inspect` is unfolded by `show`: to make its equations takes Lean long.
theorem inspect_eq_of : (v w : Value) → Related k v w → v.inspect = w.inspect
  | .array _ vs, _, h => by
    cases h with
    | @array _ _ _ ws _ hvs =>
      show "[" ++ Text.joined ", " (inspectAll vs) ++ "]" =
        "[" ++ Text.joined ", " (inspectAll ws) ++ "]"
      rw [inspectAll_eq_of vs ws hvs]
  | .hash _ es, _, h => by
    cases h with
    | @hash _ _ _ fs _ hes =>
      show "\x7b" ++ Text.joined ", " (inspectEntries es) ++ "\x7d" =
        "\x7b" ++ Text.joined ", " (inspectEntries fs) ++ "\x7d"
      rw [inspectEntries_eq_of es fs hes]
  | .returned _ v, _, h => by
    cases h with
    | @returned _ _ _ w _ hv => exact inspect_eq_of v w hv
  | .function _ xs b _, _, h => by
    cases h with
    | @function _ _ _ _ _ ys _ c _ _ hcode =>
      show "fn(" ++ Text.joined ", " (xs.map Name.value) ++ ") " ++ b.text =
        "fn(" ++ Text.joined ", " (ys.map Name.value) ++ ") " ++ c.text
      rw [k.values_eq hcode, k.text_eq hcode]
  | .integer _, _, h | .boolean _, _, h | .string _, _, h | .null, _, h | .builtin _, _, h
  | .error .., _, h | .tagged .., _, h | .absent, _, h => by cases h; rfl

theorem inspectAll_eq_of : (vs ws : List Value) → List.Forall₂ (Related k) vs ws →
    inspectAll vs = inspectAll ws
  | [], _, h => by cases h; rfl
  | v :: vs, _, h => by
    cases h with
    | cons hv hvs => rw [inspectAll, inspectAll, inspect_eq_of v _ hv, inspectAll_eq_of vs _ hvs]

theorem inspectEntries_eq_of : (es fs : List (HashKey × (Value × Value))) →
    Ordered.Rel (RelatedTwice k) es fs → inspectEntries es = inspectEntries fs
  | [], _, h => by cases h; rfl
  | (_, (key, value)) :: es, _, h => by
    cases h with
    | cons _ hpair hes =>
      cases hpair with
      | mk hkey hvalue =>
        rw [inspectEntries, inspectEntries, inspect_eq_of key _ hkey, inspect_eq_of value _ hvalue,
          inspectEntries_eq_of es _ hes]

end

theorem inspect_eq (h : Related k v w) : v.inspect = w.inspect := inspect_eq_of v w h

mutual

theorem isWhole_eq_of : (v w : Value) → Related k v w → v.isWhole = w.isWhole
  | .array _ vs, _, h => by
    cases h with
    | array _ hvs => rw [isWhole, isWhole, areWhole_eq_of vs _ hvs]
  | .hash _ es, _, h => by
    cases h with
    | hash _ hes => rw [isWhole, isWhole, entriesAreWhole_eq_of es _ hes]
  | .returned _ v, _, h => by
    cases h with
    | returned _ hv => rw [isWhole, isWhole, isWhole_eq_of v _ hv]
  | .function .., _, h | .integer _, _, h | .boolean _, _, h | .string _, _, h | .null, _, h
  | .builtin _, _, h | .error .., _, h | .tagged .., _, h | .absent, _, h => by cases h; rfl

theorem areWhole_eq_of : (vs ws : List Value) → List.Forall₂ (Related k) vs ws →
    areWhole vs = areWhole ws
  | [], _, h => by cases h; rfl
  | v :: vs, _, h => by
    cases h with
    | cons hv hvs => rw [areWhole, areWhole, isWhole_eq_of v _ hv, areWhole_eq_of vs _ hvs]

theorem entriesAreWhole_eq_of : (es fs : List (HashKey × (Value × Value))) →
    Ordered.Rel (RelatedTwice k) es fs → entriesAreWhole es = entriesAreWhole fs
  | [], _, h => by cases h; rfl
  | (_, (key, value)) :: es, _, h => by
    cases h with
    | cons _ hpair hes =>
      cases hpair with
      | mk hkey hvalue =>
        rw [entriesAreWhole, entriesAreWhole, isWhole_eq_of key _ hkey,
          isWhole_eq_of value _ hvalue, entriesAreWhole_eq_of es _ hes]

end

theorem isWhole_eq (h : Related k v w) : v.isWhole = w.isWhole := isWhole_eq_of v w h

/-- Which values are one object does not depend on the numbers. -/
theorem sameObject_eq (hv : Related k v v') (hw : Related k w w') :
    v.sameObject w = v'.sameObject w' := by
  have hiff {i j i' j' : ObjectId} (h : k.objects i i') (h' : k.objects j j') :
      (i == j) = (i' == j') := by
    rw [Bool.eq_iff_iff, beq_iff_eq, beq_iff_eq]
    exact k.objects_iff h h'
  cases hv <;> cases hw <;> first | rfl | exact hiff ‹_› ‹_›

/-- A value whose numbers and functions are the same on both machines, everywhere in it, is the
    same. -/
theorem of_own {v : Value} (h : v.Everywhere (Own k)) : Related k v v := by
  induction h with
  | array hid _ ih => exact .array hid (List.forall₂_same.mpr ih)
  | hash hid _ _ ihkeys ihvalues =>
    exact .hash hid (.of_forall_mem fun e he => .mk (ihkeys e he) (ihvalues e he))
  | returned hid _ ih => exact .returned hid ih
  | @plain v hplain hv =>
    cases v with
    | integer n => exact .integer n
    | boolean b => exact .boolean b
    | string s => exact .string s
    | null => exact .null
    | builtin b => exact .builtin b
    | absent => exact .absent
    | error id message => exact .error message hv
    | tagged id tag => exact .tagged tag hv
    | function id xs b f => exact .function hv.1 hv.2.1 hv.2.2
    | array | hash | returned => cases hplain

mutual

/-- What is the same value on both machines has numbers and functions that are the same. -/
theorem own_of_eq : (v w : Value) → Related k v w → v = w → v.Everywhere (Own k)
  | .array _ vs, _, h, heq => by
    cases h with
    | array hij hvs =>
      obtain ⟨rfl, rfl⟩ := Value.array.inj heq
      exact .array hij (ownAll_of_eq vs vs hvs rfl)
  | .hash _ es, _, h, heq => by
    cases h with
    | hash hij hes =>
      obtain ⟨rfl, rfl⟩ := Value.hash.inj heq
      have hall := ownEntries_of_eq es es hes rfl
      exact .hash hij (fun e he => (hall e he).1) fun e he => (hall e he).2
  | .returned _ v, _, h, heq => by
    cases h with
    | returned hij hv =>
      obtain ⟨rfl, rfl⟩ := Value.returned.inj heq
      exact .returned hij (own_of_eq v v hv rfl)
  | .function .., _, h, heq => by
    cases h with
    | function hij hfg hcode =>
      cases heq
      exact .plain rfl ⟨hij, hfg, hcode⟩
  | .error .., _, h, heq => by cases h with | error _ hij => cases heq; exact .plain rfl hij
  | .tagged .., _, h, heq => by cases h with | tagged _ hij => cases heq; exact .plain rfl hij
  | .integer _, _, _, _ | .boolean _, _, _, _ | .string _, _, _, _ | .null, _, _, _
  | .builtin _, _, _, _ | .absent, _, _, _ => .plain rfl trivial

theorem ownAll_of_eq : (vs ws : List Value) → List.Forall₂ (Related k) vs ws → vs = ws →
    ∀ v ∈ vs, v.Everywhere (Own k)
  | [], _, _, _ => List.forall_mem_nil _
  | v :: vs, _, h, heq => by
    cases h with
    | cons hv hvs =>
      obtain ⟨rfl, rfl⟩ := List.cons.inj heq
      exact List.forall_mem_cons.mpr ⟨own_of_eq v v hv rfl, ownAll_of_eq vs vs hvs rfl⟩

theorem ownEntries_of_eq : (es fs : List (HashKey × (Value × Value))) →
    Ordered.Rel (RelatedTwice k) es fs → es = fs →
      ∀ e ∈ es, e.2.1.Everywhere (Own k) ∧ e.2.2.Everywhere (Own k)
  | [], _, _, _ => List.forall_mem_nil _
  | (code, (key, value)) :: es, _, h, heq => by
    cases h with
    | cons _ hpair hes =>
      cases hpair with
      | mk hkey hvalue =>
        cases heq
        exact List.forall_mem_cons.mpr ⟨⟨own_of_eq key key hkey rfl,
          own_of_eq value value hvalue rfl⟩, ownEntries_of_eq es es hes rfl⟩

end

end Related

/-! ## Kinships of a machine with itself -/

/-- A kinship relates a machine to itself: what is the same on both is the same thing. -/
structure Reflects (k : Kinship) : Prop where
  objects : ∀ {i j}, k.objects i j → i = j
  frames : ∀ {i j}, k.frames i j → i = j
  code : ∀ {xs b ys c}, k.code xs b ys c → xs = ys ∧ b = c

namespace Reflects

variable {k : Kinship}

mutual

theorem eq_of (hk : Reflects k) : (v w : Value) → Related k v w → v = w
  | .array _ vs, _, h => by
    cases h with
    | array hij hvs => rw [hk.objects hij, all_eq_of hk vs _ hvs]
  | .hash _ es, _, h => by
    cases h with
    | hash hij hes => rw [hk.objects hij, entries_eq_of hk es _ hes]
  | .returned _ v, _, h => by
    cases h with
    | returned hij hv => rw [hk.objects hij, eq_of hk v _ hv]
  | .function .., _, h => by
    cases h with
    | function hij hfg hcode =>
      obtain ⟨rfl, rfl⟩ := hk.code hcode
      rw [hk.objects hij, hk.frames hfg]
  | .error .., _, h => by cases h with | error _ hij => rw [hk.objects hij]
  | .tagged .., _, h => by cases h with | tagged _ hij => rw [hk.objects hij]
  | .integer _, _, h | .boolean _, _, h | .string _, _, h | .null, _, h | .builtin _, _, h
  | .absent, _, h => by cases h; rfl

theorem all_eq_of (hk : Reflects k) : (vs ws : List Value) →
    List.Forall₂ (Related k) vs ws → vs = ws
  | [], _, h => by cases h; rfl
  | v :: vs, _, h => by
    cases h with
    | cons hv hvs => rw [eq_of hk v _ hv, all_eq_of hk vs _ hvs]

theorem entries_eq_of (hk : Reflects k) : (es fs : List (HashKey × (Value × Value))) →
    Ordered.Rel (RelatedTwice k) es fs → es = fs
  | [], _, h => by cases h; rfl
  | (_, (key, value)) :: es, _, h => by
    cases h with
    | cons _ hpair hes =>
      cases hpair with
      | mk hkey hvalue =>
        rw [eq_of hk key _ hkey, eq_of hk value _ hvalue, entries_eq_of hk es _ hes]

end

/-- Values are the same on a machine and on itself if they are one value, with numbers and
    functions that are the same. -/
theorem related_iff (hk : Reflects k) {v w : Value} :
    Related k v w ↔ v = w ∧ v.Everywhere (Own k) := by
  constructor
  · intro h
    have heq := hk.eq_of v w h
    exact ⟨heq, h.own_of_eq v w heq⟩
  · rintro ⟨rfl, h⟩
    exact .of_own h

end Reflects

end Value

/-! ## Functions that are written alike -/

/-- Which functions are written alike: their parameters and bodies are alike, and only names that
    are fit for use occur in the bodies. -/
def Likeness.Code (likeness : Likeness) (uses : String → Prop) (xs : List Name) (b : Node)
    (ys : List Name) (c : Node) : Prop :=
  List.Forall₂ likeness.name xs ys ∧ likeness.node b c ∧ ∀ x ∈ b.names, uses x

/-- The kinship of two machines on which functions that are written alike are the same. -/
def Likeness.kinship (likeness : Likeness) (uses : String → Prop)
    (objects : ObjectId → ObjectId → Prop) (frames : FrameId → FrameId → Prop)
    (objects_iff : ∀ {i j i' j'}, objects i j → objects i' j' → (i = i' ↔ j = j')) :
    Kinship where
  objects := objects
  frames := frames
  code := likeness.Code uses
  objects_iff := objects_iff
  values_eq h := likeness.values_eq h.1
  text_eq h := likeness.text_eq h.2.1

namespace Likeness

variable {uses : String → Prop} {objects : ObjectId → ObjectId → Prop}
  {frames : FrameId → FrameId → Prop}
  {objects_iff : ∀ {i j i' j'}, objects i j → objects i' j' → (i = i' ↔ j = j')}

theorem eq_of_code_same {xs ys : List Name} {b c : Node} (h : same.Code uses xs b ys c) :
    xs = ys ∧ b = c :=
  ⟨List.forall₂_eq_eq_eq ▸ h.1, h.2.1⟩

theorem reflects_same (hobjects : ∀ {i j}, objects i j → i = j)
    (hframes : ∀ {i j}, frames i j → i = j) :
    Value.Reflects (same.kinship uses objects frames objects_iff) where
  objects := hobjects
  frames := hframes
  code := eq_of_code_same

theorem code_same (huses : ∀ x, uses x) (xs : List Name) (b : Node) : same.Code uses xs b xs b :=
  ⟨List.forall₂_same.mpr fun _ _ => rfl, rfl, fun x _ => huses x⟩

/-- Where all numbers are the same and all names may be used, a value is the same as itself. -/
theorem related_refl (hobjects : ∀ i, objects i i) (hframes : ∀ i, frames i i)
    (huses : ∀ x, uses x) (v : Value) :
    Value.Related (same.kinship uses objects frames objects_iff) v v := by
  refine .of_own (.of_forall (fun v => ?_) v)
  cases v with
  | array id | hash id | returned id | error id | tagged id => exact hobjects id
  | function id xs b f => exact ⟨hobjects id, hframes f, code_same huses xs b⟩
  | integer | boolean | string | null | builtin | absent => trivial

theorem option_related_refl (hobjects : ∀ i, objects i i) (hframes : ∀ i, frames i i)
    (huses : ∀ x, uses x) (v? : Option Value) :
    Option.Rel (Value.Related (same.kinship uses objects frames objects_iff)) v? v? := by
  cases v? with
  | none => exact .none
  | some v => exact .some (related_refl hobjects hframes huses v)

end Likeness

end Monkey
