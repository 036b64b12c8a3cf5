import Monkey.Node.Alike
import Monkey.Node.Text

/-!
# Trees without tokens

Alike trees are those that agree without their tokens, and the printed form of a tree does
not depend on its tokens.
-/

namespace Monkey.Node

theorem isExprStatement_strip (n : Node) : n.strip.isExprStatement = n.isExprStatement := by
  cases n <;> rfl

theorem stripAll_isEmpty (ns : List Node) : (stripAll ns).isEmpty = ns.isEmpty := by
  cases ns <;> rfl

theorem stripAll_append (ns ms : List Node) :
    stripAll (ns ++ ms) = stripAll ns ++ stripAll ms := by
  induction ns with
  | nil => rfl
  | cons n ns ih => rw [List.cons_append, stripAll, stripAll, ih, List.cons_append]

theorem map_value_bare (xs : List Name) :
    (xs.map Name.bare).map Name.value = xs.map Name.value := by
  rw [List.map_map]
  rfl

mutual

theorem text_strip : (n : Node) → n.strip.text = n.text
  | program ss _ => by rw [strip, text, text, textStatements_strip]
  | letBinding x v _ => by rw [strip, text, text, text_strip]; rfl
  | returning v _ => by rw [strip, text, text, text_strip]
  | exprStatement e _ => by rw [strip, text, text, text_strip]
  | block [] _ => rfl
  | block (s :: ss) t => by
    have h := textStatements_strip (s :: ss)
    rw [stripAll] at h
    rw [strip, stripAll, text, text, h]
  | identifier _ => rfl
  | integer _ _ => rfl
  | string _ _ => rfl
  | boolean _ _ => rfl
  | array es _ => by rw [strip, text, text, texts_strip]
  | hash ps _ => by rw [strip, text, text, pairTexts_strip]
  | function xs b _ => by rw [strip, text, text, text_strip, map_value_bare]
  | prefixed o r _ => by rw [strip, text, text, text_strip]
  | binary l o r _ => by rw [strip, text, text, text_strip, text_strip]
  | conditional c t a _ => by
    rw [strip, text, text, text_strip, text_strip, textAlternative_strip]
  | call f as _ => by rw [strip, text, text, text_strip, texts_strip]
  | index l i _ => by rw [strip, text, text, text_strip, text_strip]
  | bare _ => rfl

theorem textStatements_strip : (ss : List Node) →
    textStatements (stripAll ss) = textStatements ss
  | [] => rfl
  | s :: ss => by
    rw [stripAll, textStatements, textStatements, text_strip, textStatements_strip,
      isExprStatement_strip, stripAll_isEmpty]

theorem texts_strip : (ns : List Node) → texts (stripAll ns) = texts ns
  | [] => rfl
  | n :: ns => by rw [stripAll, texts, texts, text_strip, texts_strip]

theorem pairTexts_strip : (ps : List (Node × Node)) → pairTexts (stripPairs ps) = pairTexts ps
  | [] => rfl
  | (k, v) :: ps => by
    rw [stripPairs, pairTexts, pairTexts, text_strip, text_strip, pairTexts_strip]

theorem textAlternative_strip : (a : Option Node) →
    textAlternative (stripOption a) = textAlternative a
  | none => rfl
  | some n => by rw [stripOption, textAlternative, textAlternative, text_strip]

end

theorem bare_inj {x y : Name} : x.bare = y.bare ↔ x.value = y.value := by
  simp [Name.bare]

theorem map_bare_inj {xs ys : List Name} :
    xs.map Name.bare = ys.map Name.bare ↔ xs.map Name.value = ys.map Name.value := by
  induction xs generalizing ys with
  | nil => cases ys <;> simp
  | cons x xs ih => cases ys <;> simp [ih, bare_inj]

mutual

/-- Alike trees are those that agree without their tokens. -/
theorem alike_iff : (m n : Node) → (m.alike n = true ↔ m.strip = n.strip)
  | program ss _, n => by cases n <;> simp [alike, strip, alikeAll_iff ss]
  | letBinding x v _, n => by cases n <;> simp [alike, strip, bare_inj, alike_iff v]
  | returning v _, n => by cases n <;> simp [alike, strip, alike_iff v]
  | exprStatement e _, n => by cases n <;> simp [alike, strip, alike_iff e]
  | block ss _, n => by cases n <;> simp [alike, strip, alikeAll_iff ss]
  | identifier x, n => by cases n <;> simp [alike, strip, bare_inj]
  | integer i _, n => by cases n <;> simp [alike, strip]
  | string s _, n => by cases n <;> simp [alike, strip]
  | boolean b _, n => by cases n <;> simp [alike, strip]
  | array es _, n => by cases n <;> simp [alike, strip, alikeAll_iff es]
  | hash ps _, n => by cases n <;> simp [alike, strip, alikePairs_iff ps]
  | function xs b _, n => by cases n <;> simp [alike, strip, map_bare_inj, alike_iff b]
  | prefixed o r _, n => by cases n <;> simp [alike, strip, alike_iff r]
  | binary l o r _, n => by cases n <;> simp [alike, strip, and_assoc, alike_iff l, alike_iff r]
  | conditional c t a _, n => by
    cases n <;>
      simp [alike, strip, and_assoc, alike_iff c, alike_iff t, alikeOption_iff a]
  | call f as _, n => by cases n <;> simp [alike, strip, alike_iff f, alikeAll_iff as]
  | index l i _, n => by cases n <;> simp [alike, strip, alike_iff l, alike_iff i]
  | bare f, n => by cases n <;> simp [alike, strip]

theorem alikeAll_iff : (ms ns : List Node) →
    (alikeAll ms ns = true ↔ stripAll ms = stripAll ns)
  | [], ns => by cases ns <;> simp [alikeAll, stripAll]
  | m :: ms, ns => by cases ns <;> simp [alikeAll, stripAll, alike_iff m, alikeAll_iff ms]

theorem alikePairs_iff : (ps qs : List (Node × Node)) →
    (alikePairs ps qs = true ↔ stripPairs ps = stripPairs qs)
  | [], qs => by cases qs <;> simp [alikePairs, stripPairs]
  | (k, v) :: ps, qs => by
    cases qs <;>
      simp [alikePairs, stripPairs, and_assoc, alike_iff k, alike_iff v, alikePairs_iff ps]

theorem alikeOption_iff : (a b : Option Node) →
    (alikeOption a b = true ↔ stripOption a = stripOption b)
  | none, b => by cases b <;> simp [alikeOption, stripOption]
  | some n, b => by cases b <;> simp [alikeOption, stripOption, alike_iff n]

end

end Monkey.Node
