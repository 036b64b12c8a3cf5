import Mathlib.Data.List.Forall2
import Mathlib.Data.Option.Basic
import Monkey.Proofs.Node.Alike

/-!
# Trees that are built alike

What trees have to have in common for their evaluation to go on alike: they are built alike all
the way down, of the same operators, literals and names, with any tokens.
-/

namespace Monkey

/-- Two trees are alike at their roots: they are of one kind and hold the same data, and the names
    and the trees in them are related. -/
inductive Node.Layer (name : Name → Name → Prop) (node : Node → Node → Prop) :
    Node → Node → Prop
  | program {ss ss' : List Node} (t t' : Option Token) : List.Forall₂ node ss ss' →
      Node.Layer name node (.program ss t) (.program ss' t')
  | letBinding {x x' : Name} {v v' : Node} (t t' : Option Token) : name x x' → node v v' →
      Node.Layer name node (.letBinding x v t) (.letBinding x' v' t')
  | returning {v v' : Node} (t t' : Option Token) : node v v' →
      Node.Layer name node (.returning v t) (.returning v' t')
  | exprStatement {e e' : Node} (t t' : Option Token) : node e e' →
      Node.Layer name node (.exprStatement e t) (.exprStatement e' t')
  | block {ss ss' : List Node} (t t' : Option Token) : List.Forall₂ node ss ss' →
      Node.Layer name node (.block ss t) (.block ss' t')
  | identifier {x x' : Name} : name x x' → Node.Layer name node (.identifier x) (.identifier x')
  | integer (k : Int) (t t' : Option Token) : Node.Layer name node (.integer k t) (.integer k t')
  | string (s : String) (t t' : Option Token) : Node.Layer name node (.string s t) (.string s t')
  | boolean (b : Bool) (t t' : Option Token) :
      Node.Layer name node (.boolean b t) (.boolean b t')
  | array {es es' : List Node} (t t' : Option Token) : List.Forall₂ node es es' →
      Node.Layer name node (.array es t) (.array es' t')
  | hash {ps ps' : List (Node × Node)} (t t' : Option Token) :
      List.Forall₂ (fun p p' => node p.1 p'.1 ∧ node p.2 p'.2) ps ps' →
      Node.Layer name node (.hash ps t) (.hash ps' t')
  | function {xs xs' : List Name} {b b' : Node} (t t' : Option Token) :
      List.Forall₂ name xs xs' → node b b' →
      Node.Layer name node (.function xs b t) (.function xs' b' t')
  | prefixed (o : String) {r r' : Node} (t t' : Option Token) : node r r' →
      Node.Layer name node (.prefixed o r t) (.prefixed o r' t')
  | binary {l l' r r' : Node} (o : String) (t t' : Option Token) : node l l' → node r r' →
      Node.Layer name node (.binary l o r t) (.binary l' o r' t')
  | conditional {c c' q q' : Node} {a a' : Option Node} (t t' : Option Token) : node c c' →
      node q q' → Option.Rel node a a' →
      Node.Layer name node (.conditional c q a t) (.conditional c' q' a' t')
  | call {f f' : Node} {as as' : List Node} (t t' : Option Token) : node f f' →
      List.Forall₂ node as as' → Node.Layer name node (.call f as t) (.call f' as' t')
  | index {l l' s s' : Node} (t t' : Option Token) : node l l' → node s s' →
      Node.Layer name node (.index l s t) (.index l' s' t')
  | bare (family : Family) : Node.Layer name node (.bare family) (.bare family)

/-- A sense in which names and trees may be alike: they stand for the same names, and are alike
    layer by layer. -/
structure Likeness where
  name : Name → Name → Prop
  node : Node → Node → Prop
  layer : ∀ {n n'}, node n n' → Node.Layer name node n n'
  value_eq : ∀ {x y}, name x y → x.value = y.value
  text_eq : ∀ {n n'}, node n n' → n.text = n'.text

namespace Likeness

theorem kindName_eq (l : Likeness) {n n' : Node} (h : l.node n n') : n.kindName = n'.kindName := by
  cases l.layer h <;> rfl

theorem values_eq (l : Likeness) {xs ys : List Name} (h : List.Forall₂ l.name xs ys) :
    xs.map Name.value = ys.map Name.value := by
  induction h with
  | nil => rfl
  | cons hx _ ih => rw [List.map_cons, List.map_cons, l.value_eq hx, ih]

/-- Trees are alike if they are the same tree. -/
def same : Likeness where
  name := Eq
  node := Eq
  layer := by
    have hlist (ns : List Node) : List.Forall₂ Eq ns ns := List.forall₂_refl ns
    have hnames (xs : List Name) : List.Forall₂ Eq xs xs := List.forall₂_refl xs
    rintro n _ rfl
    cases n with
    | program ss | block ss | array ss => constructor; exact hlist ss
    | hash ps => exact .hash _ _ (List.forall₂_same.mpr fun _ _ => ⟨rfl, rfl⟩)
    | function xs => exact .function _ _ (hnames xs) rfl
    | conditional _ _ a =>
      refine .conditional _ _ rfl rfl ?_
      cases a with
      | none => exact .none
      | some n => exact .some rfl
    | call _ as => exact .call _ _ rfl (hlist as)
    | _ => constructor <;> rfl
  value_eq h := h ▸ rfl
  text_eq h := h ▸ rfl

theorem forall₂_stripAll (ns : List Node) :
    List.Forall₂ (fun n n' => n.strip = n') ns (Node.stripAll ns) := by
  induction ns with
  | nil => exact .nil
  | cons n ns ih => exact .cons rfl ih

theorem forall₂_stripPairs (ps : List (Node × Node)) :
    List.Forall₂ (fun p p' => p.1.strip = p'.1 ∧ p.2.strip = p'.2) ps (Node.stripPairs ps) := by
  induction ps with
  | nil => exact .nil
  | cons p ps ih => exact .cons ⟨rfl, rfl⟩ ih

theorem forall₂_map_bare (xs : List Name) :
    List.Forall₂ (fun x y => x.bare = y) xs (xs.map Name.bare) :=
  List.forall₂_map_right_iff.mpr (List.forall₂_same.mpr fun _ _ => rfl)

theorem map_bare_eq {xs ys : List Name} (h : List.Forall₂ (fun x y => x.bare = y) xs ys) :
    xs.map Name.bare = ys := by
  rwa [← List.forall₂_map_left_iff (R := Eq), List.forall₂_eq_eq_eq] at h

/-- A tree is alike itself without its tokens. -/
def stripped : Likeness where
  name x y := x.bare = y
  node n n' := n.strip = n'
  layer := by
    rintro n _ rfl
    cases n with
    | program ss | block ss | array ss => constructor; exact forall₂_stripAll ss
    | hash ps => exact .hash _ _ (forall₂_stripPairs ps)
    | function xs => exact .function _ _ (forall₂_map_bare xs) rfl
    | conditional _ _ a =>
      refine .conditional _ _ rfl rfl ?_
      cases a with
      | none => exact .none
      | some n => exact .some rfl
    | call _ as => exact .call _ _ rfl (forall₂_stripAll as)
    | _ => constructor <;> rfl
  value_eq h := h ▸ rfl
  text_eq {n _} h := h ▸ n.text_strip.symm

end Likeness

end Monkey
