import Monkey.Node.Dump
import Monkey.Proofs.Node.Alike
import Monkey.Proofs.Text.Lines
import Monkey.Proofs.Text.Quoted
import Monkey.Proofs.Token.Spelling
import Std.Data.String.ToInt

/-!
# Dumps tell trees apart

A dump shows a tree as an outline, a line for each node below that of its parent.  The depth,
the kind and the scalar of a node can be read off its line, the outline off the lines, and the
tree without its tokens off the outline.
-/

namespace Monkey

/-! ## Lines -/

/-- What the line of a node says of it. -/
@[ext] structure Label where
  kind : String
  scalar? : Option String
  named : kind ≠ "" ∧ kind.toList.all Char.isAlpha
  oneLine : ∀ s ∈ scalar?, '\n' ∉ s.toList

/-- Where a property ends in a text does not depend on how the text is cut there. -/
theorem append_inj_of_all {p : Char → Bool} {cs ds cs' ds' : List Char} (hcs : cs.all p)
    (hds : ∀ c ∈ ds.head?, p c = false) (hcs' : cs'.all p) (hds' : ∀ c ∈ ds'.head?, p c = false)
    (h : cs ++ ds = cs' ++ ds') : cs = cs' ∧ ds = ds' := by
  have htake := congrArg (List.takeWhile p) h
  rw [Scanner.takeWhile_append_of_head hcs hds, Scanner.takeWhile_append_of_head hcs' hds'] at htake
  subst htake
  exact ⟨rfl, List.append_cancel_left h⟩

namespace Label

/-- The scalar as the line shows it. -/
def suffix (l : Label) : String := (l.scalar?.map fun s => "(" ++ s ++ ")").getD ""

/-- The line of a node at a depth. -/
def line (entry : Nat × Label) : String :=
  Node.indentation entry.1 ++ entry.2.kind ++ entry.2.suffix

theorem toList_line (entry : Nat × Label) : (line entry).toList =
    List.replicate (2 * entry.1) ' ' ++ (entry.2.kind.toList ++ entry.2.suffix.toList) := by
  simp [line, Node.indentation]

theorem head?_suffix (l : Label) : ∀ c ∈ l.suffix.toList.head?, c.isAlpha = false := by
  unfold suffix
  cases l.scalar? with
  | none => simp
  | some s => simp

theorem head?_kind (l : Label) (cs : List Char) :
    ∀ c ∈ (l.kind.toList ++ cs).head?, (c == ' ') = false := by
  obtain ⟨hne, halpha⟩ := l.named
  cases hkind : l.kind.toList with
  | nil => exact absurd (String.toList_inj.mp hkind) hne
  | cons c rest =>
    rw [hkind, List.all_cons, Bool.and_eq_true] at halpha
    simp only [List.cons_append, List.head?_cons, Option.mem_some_iff, forall_eq']
    rw [beq_eq_false_iff_ne]
    rintro rfl
    exact absurd halpha.1 (by decide)

theorem suffix_inj {l l' : Label} (h : l.suffix = l'.suffix) : l.scalar? = l'.scalar? := by
  unfold suffix at h
  cases hs : l.scalar? <;> cases hs' : l'.scalar? <;> simp_all [← String.toList_inj]

/-- The depth and the label can be read off a line. -/
theorem line_injective : Function.Injective line := by
  rintro ⟨depth, l⟩ ⟨depth', l'⟩ h
  have hchars := congrArg String.toList h
  rw [toList_line, toList_line] at hchars
  obtain ⟨hblanks, hlabel⟩ := append_inj_of_all (by simp) (head?_kind l _) (by simp)
    (head?_kind l' _) hchars
  obtain ⟨hkind, hsuffix⟩ := append_inj_of_all l.named.2 (head?_suffix l) l'.named.2
    (head?_suffix l') hlabel
  have hdepth : depth = depth' := by
    have hlength := congrArg List.length hblanks
    simp only [List.length_replicate] at hlength
    omega
  have hscalar := suffix_inj (String.toList_inj.mp hsuffix)
  rw [hdepth, Label.ext (String.toList_inj.mp hkind) hscalar]

theorem feed_notMem_line (entry : Nat × Label) : '\n' ∉ (line entry).toList := by
  obtain ⟨depth, l⟩ := entry
  have hkind : '\n' ∉ l.kind.toList := by
    intro hmem
    exact absurd (List.all_eq_true.mp l.named.2 _ hmem) (by decide)
  have hsuffix : '\n' ∉ l.suffix.toList := by
    have hline := l.oneLine
    unfold suffix
    cases hs : l.scalar? with
    | none => simp
    | some s => simpa using hline s hs
  simp [toList_line, hkind, hsuffix]

end Label

/-! ## Outlines -/

/-- A tree of which only the lines are known. -/
inductive Outline where
  | node (label : Label) (children : List Outline)

namespace Outline

/-- The labels of outlines and of what is below them, in order, with their depths. -/
def entries (depth : Nat) : List Outline → List (Nat × Label)
  | [] => []
  | node label children :: rest =>
    (depth, label) :: (entries (depth + 1) children ++ entries depth rest)

@[simp] theorem entries_nil (depth : Nat) : entries depth [] = [] := by
  rw [entries]

@[simp] theorem entries_cons (depth : Nat) (label : Label) (children rest : List Outline) :
    entries depth (node label children :: rest) =
      (depth, label) :: (entries (depth + 1) children ++ entries depth rest) := by
  rw [entries]

/-- What follows the outlines at a depth: it is further up. -/
def Above (depth : Nat) (es : List (Nat × Label)) : Prop := ∀ e ∈ es.head?, e.1 < depth

theorem above_entries {depth : Nat} {es : List (Nat × Label)} (h : Above depth es)
    (ts : List Outline) : Above (depth + 1) (entries depth ts ++ es) := by
  unfold entries
  split
  · exact fun e he => (h e he).trans (Nat.lt_succ_self depth)
  · simp [Above]

/-- Where nothing is further down, there are no outlines. -/
theorem ne_cons_append {depth : Nat} {es fs : List (Nat × Label)} (h : Above depth es)
    (label : Label) : es ≠ (depth, label) :: fs := by
  rintro rfl
  exact lt_irrefl depth (h _ rfl)

/-- Outlines can be read off their entries, whatever follows further up. -/
theorem entries_append_inj {depth : Nat} {ts ts' : List Outline} {es es' : List (Nat × Label)}
    (hes : Above depth es) (hes' : Above depth es')
    (h : entries depth ts ++ es = entries depth ts' ++ es') : ts = ts' ∧ es = es' := by
  fun_induction entries depth ts generalizing ts' es es' with
  | case1 depth =>
    cases ts' with
    | nil => exact ⟨rfl, by simpa using h⟩
    | cons t' ts' =>
      obtain ⟨label', children'⟩ := t'
      rw [entries_cons] at h
      exact absurd h (ne_cons_append hes label')
  | case2 depth label children rest ihchildren ihrest =>
    cases ts' with
    | nil =>
      rw [entries_nil] at h
      exact absurd h.symm (ne_cons_append hes' label)
    | cons t' ts' =>
      obtain ⟨label', children'⟩ := t'
      rw [entries_cons, List.cons_append, List.cons_append, List.append_assoc,
        List.append_assoc] at h
      obtain ⟨hlabel, htail⟩ := List.cons.inj h
      obtain ⟨rfl, hrest⟩ := ihchildren (above_entries hes _) (above_entries hes' _) htail
      obtain ⟨rfl, hes⟩ := ihrest hes hes' hrest
      exact ⟨by rw [(Prod.mk.inj hlabel).2], hes⟩

/-- Outlines as text, a line for every entry. -/
def text (depth : Nat) (ts : List Outline) : String :=
  Text.lines ((entries depth ts).map Label.line)

theorem text_nil (depth : Nat) : text depth [] = "" := by
  simp [text, Text.lines]

theorem text_node (depth : Nat) (label : Label) (children : List Outline) :
    text depth [node label children] =
      Label.line (depth, label) ++ "\n" ++ text (depth + 1) children := by
  simp [text, Text.lines]

theorem text_append (depth : Nat) (ts us : List Outline) :
    text depth (ts ++ us) = text depth ts ++ text depth us := by
  have hentries : entries depth (ts ++ us) = entries depth ts ++ entries depth us := by
    induction ts with
    | nil => simp
    | cons t ts ih =>
      obtain ⟨label, children⟩ := t
      simp [ih]
  simp [text, hentries]

theorem text_cons (depth : Nat) (t : Outline) (ts : List Outline) :
    text depth (t :: ts) = text depth [t] ++ text depth ts :=
  text_append depth [t] ts

/-- Outlines can be read off their text. -/
theorem text_injective (depth : Nat) : Function.Injective (text depth) := by
  intro ts us h
  have hline (ts : List Outline) : ∀ s ∈ (entries depth ts).map Label.line, '\n' ∉ s.toList := by
    intro s hs
    obtain ⟨entry, -, rfl⟩ := List.mem_map.mp hs
    exact Label.feed_notMem_line entry
  have hentries : entries depth ts = entries depth us :=
    List.map_injective_iff.mpr Label.line_injective (Text.lines_inj (hline ts) (hline us) h)
  have hnil : Above depth [] := by simp [Above]
  exact (entries_append_inj hnil hnil (congrArg (· ++ []) hentries)).1

end Outline

namespace Node

/-! ## The outline of a tree -/

theorem feed_notMem_repr (i : Int) : '\n' ∉ i.repr.toList := by
  rw [Int.repr_eq_if]
  split <;> simp [Text.feed_notMem_toDigits]

/-- What the line of a node says of it. -/
def label (n : Node) : Label where
  kind := n.kindName
  scalar? := n.scalar?
  named := by
    cases n with
    | bare family => cases family <;> decide
    | _ => simp only [kindName]; decide
  oneLine := by
    cases n with
    | boolean b => cases b <;> simp [scalar?]
    | _ => simp [scalar?, Text.feed_notMem_quoted, feed_notMem_repr]

/-- The outline of a name. -/
def outlineName (x : Name) : Outline := .node (identifier x).label []

mutual

/-- The outline of a tree. -/
def outline : Node → Outline
  | program ss t => .node (program ss t).label (outlines ss)
  | letBinding x v t => .node (letBinding x v t).label ([outlineName x] ++ [outline v])
  | returning v t => .node (returning v t).label [outline v]
  | exprStatement e t => .node (exprStatement e t).label [outline e]
  | block ss t => .node (block ss t).label (outlines ss)
  | array es t => .node (array es t).label (outlines es)
  | hash ps t => .node (hash ps t).label (outlinePairs ps)
  | function xs b t => .node (function xs b t).label (xs.map outlineName ++ [outline b])
  | prefixed o r t => .node (prefixed o r t).label [outline r]
  | binary l o r t => .node (binary l o r t).label ([outline l] ++ [outline r])
  | conditional c d a t =>
    .node (conditional c d a t).label ([outline c] ++ [outline d] ++ outlineOption a)
  | call f as t => .node (call f as t).label ([outline f] ++ outlines as)
  | index l i t => .node (index l i t).label ([outline l] ++ [outline i])
  | identifier x => outlineName x
  | integer i t => .node (integer i t).label []
  | string s t => .node (string s t).label []
  | boolean b t => .node (boolean b t).label []
  | bare family => .node (bare family).label []

/-- The outlines of several trees. -/
def outlines : List Node → List Outline
  | [] => []
  | n :: rest => outline n :: outlines rest

/-- The outlines of pairs, each key before its value. -/
def outlinePairs : List (Node × Node) → List Outline
  | [] => []
  | (key, value) :: rest => outline key :: outline value :: outlinePairs rest

/-- The outline of a tree that may be missing. -/
def outlineOption : Option Node → List Outline
  | none => []
  | some n => [outline n]

end

theorem label_inj {m n : Node} :
    m.label = n.label ↔ m.kindName = n.kindName ∧ m.scalar? = n.scalar? := by
  simp [label]

@[simp] theorem outlineName_inj {x y : Name} : outlineName x = outlineName y ↔ x.bare = y.bare := by
  simp [outlineName, label_inj, kindName, scalar?, bare_inj]

theorem map_outlineName_inj {xs ys : List Name} :
    xs.map outlineName = ys.map outlineName ↔ xs.map Name.bare = ys.map Name.bare := by
  induction xs generalizing ys with
  | nil => cases ys <;> simp
  | cons x xs ih => cases ys <;> simp [ih]

theorem boolean_scalar_inj {a b : Bool} :
    (if a then "True" else "False") = (if b then "True" else "False") ↔ a = b := by
  cases a <;> cases b <;> decide

theorem eq_name_iff {s : String} (f : Family) : s = f.name ↔
    s = "Node" ∧ f = .node ∨ s = "Statement" ∧ f = .statement ∨
      s = "Expression" ∧ f = .expression := by
  cases f <;> simp [Family.name]

section

attribute [local simp] strip outline outlineName label_inj kindName scalar? eq_name_iff

mutual

/-- The outline of a tree is all of it but its tokens. -/
theorem outline_inj : (m n : Node) → (m.outline = n.outline ↔ m.strip = n.strip)
  | program ss _, n => by cases n <;> simp [outlines_inj ss]
  | letBinding x v _, n => by cases n <;> simp [bare_inj, outline_inj v]
  | returning v _, n => by cases n <;> simp [outline_inj v]
  | exprStatement e _, n => by cases n <;> simp [outline_inj e]
  | block ss _, n => by cases n <;> simp [outlines_inj ss]
  | identifier x, n => by cases n <;> simp [bare_inj]
  | integer i _, n => by cases n <;> simp [Int.repr_inj]
  | string s _, n => by cases n <;> simp
  | boolean b _, n => by cases n <;> simp [boolean_scalar_inj]
  | array es _, n => by cases n <;> simp [outlines_inj es]
  | hash ps _, n => by cases n <;> simp [outlinePairs_inj ps]
  | function xs b _, n => by cases n <;> simp [map_outlineName_inj, outline_inj b]
  | prefixed o r _, n => by cases n <;> simp [outline_inj r]
  | binary l o r _, n => by cases n <;> simp [and_left_comm, outline_inj l, outline_inj r]
  | conditional c d a _, n => by
    cases n <;> simp [outline_inj c, outline_inj d, outlineOption_inj a]
  | call f as _, n => by cases n <;> simp [outline_inj f, outlines_inj as]
  | index l i _, n => by cases n <;> simp [outline_inj l, outline_inj i]
  | bare f, n => by
    cases n with
    | bare g => cases f <;> cases g <;> simp [Family.name]
    | _ => cases f <;> simp [Family.name]
termination_by structural m => m

theorem outlines_inj : (ms ns : List Node) →
    (outlines ms = outlines ns ↔ stripAll ms = stripAll ns)
  | [], ns => by cases ns <;> simp [outlines, stripAll]
  | m :: ms, ns => by cases ns <;> simp [outlines, stripAll, outline_inj m, outlines_inj ms]
termination_by structural ms => ms

theorem outlinePairs_inj : (ps qs : List (Node × Node)) →
    (outlinePairs ps = outlinePairs qs ↔ stripPairs ps = stripPairs qs)
  | [], qs => by cases qs <;> simp [outlinePairs, stripPairs]
  | (k, v) :: ps, qs => by
    cases qs <;>
      simp [outlinePairs, stripPairs, and_assoc, outline_inj k, outline_inj v, outlinePairs_inj ps]
termination_by structural ps => ps

theorem outlineOption_inj : (a b : Option Node) →
    (outlineOption a = outlineOption b ↔ stripOption a = stripOption b)
  | none, b => by cases b <;> simp [outlineOption, stripOption]
  | some n, b => by cases b <;> simp [outlineOption, stripOption, outline_inj n]
termination_by structural a => a

end

end

/-! ## Dumps -/

theorem headline_eq (depth : Nat) (n : Node) :
    headline depth n = Label.line (depth, n.label) ++ "\n" := rfl

theorem deeper (depth : Nat) : (depth : Int) + 1 = ((depth + 1 : Nat) : Int) := rfl

theorem dumpNames_eq (depth : Nat) (xs : List Name) :
    dumpNames depth xs = Outline.text depth (xs.map outlineName) := by
  induction xs with
  | nil => rw [dumpNames, List.map_nil, Outline.text_nil]
  | cons x xs ih =>
    rw [dumpNames, List.map_cons, Outline.text_cons, ih, headline_eq, outlineName,
      Outline.text_node, Outline.text_nil, String.append_empty]

mutual

/-- A dump is the text of the outline. -/
theorem dump_eq : (depth : Nat) → (n : Node) → dump depth n = Outline.text depth [n.outline]
  | depth, program ss _ => by
    rw [dump, outline, Outline.text_node, headline_eq, deeper, dumpAll_eq (depth + 1) ss]
  | depth, letBinding x v _ => by
    rw [dump, outline, Outline.text_node, headline_eq, deeper, dumpNames_eq, List.map_singleton,
      dump_eq (depth + 1) v, Outline.text_append, String.append_assoc]
  | depth, returning v _ => by
    rw [dump, outline, Outline.text_node, headline_eq, deeper, dump_eq (depth + 1) v]
  | depth, exprStatement e _ => by
    rw [dump, outline, Outline.text_node, headline_eq, deeper, dump_eq (depth + 1) e]
  | depth, block ss _ => by
    rw [dump, outline, Outline.text_node, headline_eq, deeper, dumpAll_eq (depth + 1) ss]
  | depth, identifier x => by
    rw [dump, outline, outlineName, Outline.text_node, Outline.text_nil, headline_eq,
      String.append_empty]
  | depth, integer _ _ => by
    rw [dump, outline, Outline.text_node, Outline.text_nil, headline_eq, String.append_empty]
  | depth, string _ _ => by
    rw [dump, outline, Outline.text_node, Outline.text_nil, headline_eq, String.append_empty]
  | depth, boolean _ _ => by
    rw [dump, outline, Outline.text_node, Outline.text_nil, headline_eq, String.append_empty]
  | depth, array es _ => by
    rw [dump, outline, Outline.text_node, headline_eq, deeper, dumpAll_eq (depth + 1) es]
  | depth, hash ps _ => by
    rw [dump, outline, Outline.text_node, headline_eq, deeper, dumpPairs_eq (depth + 1) ps]
  | depth, function xs b _ => by
    rw [dump, outline, Outline.text_node, headline_eq, deeper, dumpNames_eq, dump_eq (depth + 1) b,
      Outline.text_append, String.append_assoc]
  | depth, prefixed o r _ => by
    rw [dump, outline, Outline.text_node, headline_eq, deeper, dump_eq (depth + 1) r]
  | depth, binary l o r _ => by
    rw [dump, outline, Outline.text_node, headline_eq, deeper, dump_eq (depth + 1) l,
      dump_eq (depth + 1) r, Outline.text_append, String.append_assoc]
  | depth, conditional c d a _ => by
    rw [dump, outline, Outline.text_node, headline_eq, deeper, dump_eq (depth + 1) c,
      dump_eq (depth + 1) d, dumpOption_eq (depth + 1) a, Outline.text_append, Outline.text_append]
    simp only [String.append_assoc]
  | depth, call f as _ => by
    rw [dump, outline, Outline.text_node, headline_eq, deeper, dump_eq (depth + 1) f,
      dumpAll_eq (depth + 1) as, Outline.text_append, String.append_assoc]
  | depth, index l i _ => by
    rw [dump, outline, Outline.text_node, headline_eq, deeper, dump_eq (depth + 1) l,
      dump_eq (depth + 1) i, Outline.text_append, String.append_assoc]
  | depth, bare _ => by
    rw [dump, outline, Outline.text_node, Outline.text_nil, headline_eq, String.append_empty]

theorem dumpAll_eq : (depth : Nat) → (ns : List Node) →
    dumpAll depth ns = Outline.text depth (outlines ns)
  | depth, [] => by rw [dumpAll, outlines, Outline.text_nil]
  | depth, n :: ns => by
    rw [dumpAll, outlines, Outline.text_cons, dump_eq depth n, dumpAll_eq depth ns]

theorem dumpPairs_eq : (depth : Nat) → (ps : List (Node × Node)) →
    dumpPairs depth ps = Outline.text depth (outlinePairs ps)
  | depth, [] => by rw [dumpPairs, outlinePairs, Outline.text_nil]
  | depth, (k, v) :: ps => by
    rw [dumpPairs, outlinePairs, Outline.text_cons, Outline.text_cons _ v.outline,
      dump_eq depth k, dump_eq depth v, dumpPairs_eq depth ps, String.append_assoc]

theorem dumpOption_eq : (depth : Nat) → (a : Option Node) →
    dumpOption depth a = Outline.text depth (outlineOption a)
  | depth, none => by rw [dumpOption, outlineOption, Outline.text_nil]
  | depth, some n => by rw [dumpOption, outlineOption, dump_eq depth n]

end

/-- Two trees have the same dump exactly if they differ at most in their tokens: nothing else is
    lost, and no string literal can be taken for lines of the outline. -/
theorem dump_eq_dump_iff (m n : Node) (depth : Nat) :
    m.dump depth = n.dump depth ↔ m.alike n = true := by
  rw [dump_eq, dump_eq, (Outline.text_injective depth).eq_iff, List.singleton_inj, outline_inj,
    alike_iff]

/-- A text that closes its own line and opens another stays on one line. -/
example : (string "')\n  Identifier('x" none).dump 0 =
    "StringLiteral(\"')\\n  Identifier('x\")\n" := by
  decide

end Node

end Monkey
