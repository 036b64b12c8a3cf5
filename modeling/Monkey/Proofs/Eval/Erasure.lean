import Monkey.Proofs.Eval.Lawful
import Monkey.Proofs.Value.Strip

/-!
# What evaluation does not look at

Evaluation looks at no token, neither of the tree it works on nor of the functions it meets,
and not at what has been written before.  Without these it does the same.
-/

namespace Monkey

/-- A machine without tokens, on which some lines had been written before. -/
def Machine.bare (written : List OutputLine) (m : Machine) : Machine :=
  ⟨m.heap.strip, m.nextObject, m.output ++ written⟩

/-- From a machine without tokens on which more has been written, `y` does what `x` does from
    the machine itself, and its result is that of `x` without tokens. -/
def Erases (x y : Run Value) : Prop :=
  ∀ (m : Machine) (written : List OutputLine), y (m.bare written) =
    match x m with
    | .ok v m' => .ok v.strip (m'.bare written)
    | .error reason m' => .error reason (m'.bare written)

/-! ## Values -/

/-- The kinship of a machine with itself without tokens. -/
abbrev Kinship.stripped : Kinship :=
  Likeness.stripped.kinship (fun _ => True) Eq Eq (@Eq.congr ObjectId)

namespace Value.Related

mutual

theorem strip_eq : (v w : Value) → Related .stripped v w → v.strip = w
  | .array _ vs, _, h => by
    cases h with
    | array hij hvs => rw [strip, ← hij, stripAll_eq vs _ hvs]
  | .hash _ es, _, h => by
    cases h with
    | hash hij hes => rw [strip, ← hij, stripEntries_eq es _ hes]
  | .returned _ v, _, h => by
    cases h with
    | returned hij hv => rw [strip, ← hij, strip_eq v _ hv]
  | .function .., _, h => by
    cases h with
    | function hij hfg hcode =>
      obtain ⟨hxs, hb, -⟩ := hcode
      rw [strip, ← hij, ← hfg, hb, Likeness.map_bare_eq hxs]
  | .error _ message, _, h => by
    cases h with
    | error _ hij => exact congrArg (Value.error · message) hij
  | .tagged _ tag, _, h => by
    cases h with
    | tagged _ hij => exact congrArg (Value.tagged · tag) hij
  | .integer _, _, h | .boolean _, _, h | .string _, _, h | .null, _, h | .builtin _, _, h
  | .absent, _, h => by cases h; rfl

theorem stripAll_eq : (vs ws : List Value) → List.Forall₂ (Related .stripped) vs ws →
    stripAll vs = ws
  | [], _, h => by cases h; rfl
  | v :: vs, _, h => by
    cases h with
    | cons hv hvs => rw [stripAll, strip_eq v _ hv, stripAll_eq vs _ hvs]

theorem stripEntries_eq : (es fs : List (HashKey × (Value × Value))) →
    Ordered.Rel (RelatedTwice .stripped) es fs → stripEntries es = fs
  | [], _, h => by cases h; rfl
  | (_, (key, value)) :: es, _, h => by
    cases h with
    | cons _ hpair hes =>
      cases hpair with
      | mk hkey hvalue =>
        rw [stripEntries, strip_eq key _ hkey, strip_eq value _ hvalue, stripEntries_eq es _ hes]

end

mutual

/-- A value is the same as itself without tokens. -/
theorem stripped : (v : Value) → Related .stripped v v.strip
  | .array _ vs => .array rfl (all_stripped vs)
  | .hash _ es => .hash rfl (entries_stripped es)
  | .returned _ v => .returned rfl (stripped v)
  | .function _ xs .. =>
    .function rfl rfl ⟨Likeness.forall₂_map_bare xs, rfl, fun _ _ => trivial⟩
  | .error .. => .error _ rfl
  | .tagged .. => .tagged _ rfl
  | .integer n => .integer n
  | .boolean b => .boolean b
  | .string s => .string s
  | .null => .null
  | .builtin b => .builtin b
  | .absent => .absent

theorem all_stripped : (vs : List Value) → List.Forall₂ (Related .stripped) vs (stripAll vs)
  | [] => .nil
  | v :: vs => .cons (stripped v) (all_stripped vs)

theorem entries_stripped : (es : List (HashKey × (Value × Value))) →
    Ordered.Rel (RelatedTwice .stripped) es (stripEntries es)
  | [] => .nil
  | (code, (key, value)) :: es =>
    .cons code (.mk (stripped key) (stripped value)) (entries_stripped es)

end

end Value.Related

namespace Law

/-- The law that evaluation does without tokens, and with more written before, what it does. -/
def erased (setting : Setting) (written : List OutputLine) : Law where
  toComparison := .image (fun _ => False) (Machine.bare written) fun _ => True
  setting := setting
  likeness := .stripped
  newObject _ := Comparison.image_step fun _ hm => ⟨_, _, _, rfl, rfl, hm, rfl⟩
  write _ _ := Comparison.image_step fun _ hm => ⟨_, _, _, rfl, rfl, hm, trivial⟩
  trace _ n _ := by
    rintro rfl
    have hkind : n.strip.kindName = n.kindName := (Likeness.stripped.kindName_eq rfl).symm
    unfold Eval.trace
    rw [hkind, n.text_strip]
    refine .ite .rfl ?_ (.pure fun _ _ => trivial)
    exact Comparison.image_step fun _ hm => ⟨_, _, _, rfl, rfl, hm, trivial⟩
  createFrame := by
    rintro _ f _ rfl
    refine Comparison.image_step fun m hm => ⟨_, _, _, rfl, ?_, hm, rfl, fun _ => trivial⟩
    have hcreate := m.heap.create_strip (some f)
    exact congrArg (fun c : Heap × FrameId =>
      EStateM.Result.ok c.2 (Machine.mk c.1 m.nextObject (m.output ++ written))) hcreate
  bind := by
    rintro _ i _ x v v' rfl - hv
    obtain rfl := hv.strip_eq
    refine Comparison.image_step fun m hm => ⟨_, (), _, rfl, ?_, hm, trivial⟩
    have hbind := m.heap.bind_strip i x v
    exact congrArg (fun heap =>
      EStateM.Result.ok () (Machine.mk heap m.nextObject (m.output ++ written))) hbind
  lookup := by
    rintro _ i _ x rfl -
    refine Comparison.image_step fun m hm => ⟨_, _, _, rfl, rfl, hm, ?_⟩
    show Option.Rel _ _ (m.heap.strip.lookup x i)
    rw [m.heap.lookup_strip]
    cases m.heap.lookup x i with
    | none => exact .none
    | some v => exact .some (.stripped v)

theorem erases {setting : Setting} {x y : Run Value}
    (h : ∀ written, (erased setting written).Values () x y) : Erases x y := by
  intro m written
  rcases (h written).image_ends (m := m) trivial with ⟨v, v', n, hx, hy, -, hv⟩ |
    ⟨reason, n, hx, hy, -⟩ | ⟨reason, n, -, hexcused⟩
  · obtain rfl := hv.strip_eq
    rw [hx, hy]
  · rw [hx, hy]
  · exact hexcused.elim

end Law

/-- The evaluation of statements looks at no token. -/
theorem evalStatements_erases (setting : Setting) (frame : FrameId) (ss : List Node) :
    Erases (evalStatements setting frame ss)
      (evalStatements setting frame (Node.stripAll ss)) :=
  Law.erases fun written => Law.evalStatements (L := .erased setting written) (.inl rfl)
    (Likeness.forall₂_stripAll ss) ⟨rfl, fun _ _ => trivial, fun _ _ => trivial⟩

end Monkey
