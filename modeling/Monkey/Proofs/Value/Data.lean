import Mathlib.Data.List.Forall2
import Monkey.Proofs.Parser.Writing
import Monkey.Proofs.Value.Everywhere
import Monkey.Value.Inspect

/-!
# Data and its literals

Integers, booleans, and arrays and hashes of them are shown as literals: the words of the text
that shows such a value write an expression.  Only the least integer is no literal, as its
magnitude is no integer.
-/

namespace Monkey

/-! ## Lists with commas -/

namespace Grammar

/-- Words with commas in between. -/
def separated (wss : List (List Word)) : List Word :=
  (wss.intersperse [symbol .comma]).flatten

variable {wss : List (List Word)}

theorem separated_singleton (ws : List Word) : separated [ws] = ws :=
  List.append_nil ws

theorem separated_cons_cons (ws ws' : List Word) (wss : List (List Word)) :
    separated (ws :: ws' :: wss) = ws ++ symbol .comma :: separated (ws' :: wss) := by
  simp [separated]

theorem mem_separated_iff {w : Word} (h : w ≠ symbol .comma) :
    w ∈ separated wss ↔ ∃ ws ∈ wss, w ∈ ws := by
  induction wss with
  | nil => exact ⟨nofun, nofun⟩
  | cons ws wss ih =>
    cases wss with
    | nil => simp [separated_singleton]
    | cons ws' wss =>
      rw [separated_cons_cons, List.mem_append, List.mem_cons, ih, List.exists_mem_cons_iff]
      simp [h]

theorem forall₂_map_map {α β γ : Type} {related : β → γ → Prop} {f : α → β} {g : α → γ}
    {as : List α} (h : ∀ a ∈ as, related (f a) (g a)) :
    List.Forall₂ related (as.map f) (as.map g) := by
  rw [List.forall₂_map_left_iff, List.forall₂_map_right_iff, List.forall₂_same]
  exact h

theorem shows_repr (n : Nat) : Shows n.repr.toList [⟨.int, n.repr⟩] := by
  intro ds hds
  have hdigits : ∀ c ∈ Nat.toDigits 10 n, c.isDigit := fun c hc =>
    Nat.isDigit_of_mem_toDigits (by decide) (by decide) hc
  have hwords := Scanner.wordsIn_digits Nat.toDigits_ne_nil (List.all_eq_true.mpr hdigits) hds
  rwa [← Nat.toList_repr, String.ofList_toList] at hwords

/-- A text that shows words shows them also between symbols. -/
theorem shows_between {s : String} {ws : List Word} {opening closing : Kind}
    (h : Shows s.toList ws) (hopening : opening ∈ Scanner.plainSymbols)
    (hclosing : closing ∈ Scanner.plainSymbols)
    (hapart : ∀ ds, Scanner.Apart (closing.name.toList ++ ds)) :
    Shows (opening.name ++ s ++ closing.name).toList
      (symbol opening :: (ws ++ [symbol closing])) := by
  intro ds _
  rw [String.toList_append, String.toList_append, List.append_assoc, List.append_assoc,
    Scanner.wordsIn_symbol hopening, h _ (hapart ds), Scanner.wordsIn_symbol hclosing,
    List.cons_append, List.append_assoc]
  rfl

/-- Texts that show words show them with a symbol in between, a space behind it. -/
theorem shows_append {s sep t : String} {ws vs : List Word} {kind : Kind}
    (hs : Shows s.toList ws) (ht : Shows t.toList vs) (hkind : kind ∈ Kind.symbols)
    (hsep : sep.toList = kind.name.toList ++ [' '])
    (hapart : ∀ ds, Scanner.Apart (sep.toList ++ ds)) :
    Shows (s ++ sep ++ t).toList (ws ++ symbol kind :: vs) := by
  intro ds hds
  rw [String.toList_append, String.toList_append, List.append_assoc, List.append_assoc,
    hs _ (hapart _), hsep, List.append_assoc, List.singleton_append,
    Scanner.wordsIn_symbol_space hkind, ht ds hds, List.append_assoc]
  rfl

/-- Texts that show words show them with commas in between. -/
theorem shows_separated {ss : List String}
    (h : List.Forall₂ (fun s ws => Shows s.toList ws) ss wss) :
    Shows (Text.joined ", " ss).toList (separated wss) := by
  induction h with
  | nil => exact fun _ _ => rfl
  | @cons s ws ss wss hshows htail ih =>
    cases htail with
    | nil =>
      rw [separated_singleton]
      exact hshows
    | cons =>
      rw [separated_cons_cons, Text.joined_cons_cons]
      exact shows_append hshows ih (by decide) rfl fun _ => apart_cons rfl _

theorem written_items {es : List Node}
    (h : List.Forall₂ (fun e ws => Written (.bare e) ws) es wss) :
    Written (.items es) (separated wss) := by
  induction h with
  | nil => exact .noItems
  | cons hwritten htail ih =>
    cases htail with
    | nil =>
      rw [separated_singleton]
      exact .item (.plain hwritten id)
    | cons =>
      rw [separated_cons_cons]
      exact .items (.plain hwritten id) ih

/-- Words of a key and a value with a colon in between. -/
def WrittenPair (p : Node × Node) (ws : List Word) : Prop :=
  ∃ i j, Written (.bare p.1) i ∧ Written (.bare p.2) j ∧ ws = i ++ symbol .colon :: j

theorem written_pairs {ps : List (Node × Node)} (h : List.Forall₂ WrittenPair ps wss) :
    Written (.pairs ps) (separated wss) := by
  induction h with
  | nil => exact .noPairs
  | cons hpair htail ih =>
    obtain ⟨i, j, hkey, hvalue, rfl⟩ := hpair
    cases htail with
    | nil =>
      rw [separated_singleton]
      exact .pair (.plain hkey id) (.plain hvalue id)
    | cons =>
      rw [separated_cons_cons, List.append_assoc, List.cons_append]
      exact .pairs (.plain hkey id) (.plain hvalue id) ih

end Grammar

open Grammar

/-! ## Data -/

namespace Value

/-- Integers and booleans. -/
inductive IsScalar : Value → Prop
  | integer (n : Int64) : IsScalar (.integer n)
  | boolean (b : Bool) : IsScalar (.boolean b)

/-- Values made of integers and booleans by arrays and hashes.  The keys of a hash are integers
    and booleans too; each is kept under its own key, and no two under one. -/
inductive IsData : Value → Prop
  | scalar {v : Value} : v.IsScalar → IsData v
  | array (id : ObjectId) {vs : List Value} : (∀ v ∈ vs, IsData v) → IsData (.array id vs)
  | hash (id : ObjectId) {es : List (HashKey × (Value × Value))} : (Ordered.keys es).Nodup →
      (∀ e ∈ es, e.2.1.IsScalar ∧ ∀ surrogate?, e.2.1.hashKey surrogate? = .ok e.1) →
      (∀ e ∈ es, IsData e.2.2) → IsData (.hash id es)

/-- A value in which the least integer does not occur. -/
abbrev WithoutLeast (v : Value) : Prop := v.Everywhere (· ≠ .integer Int64.minValue)

/-! ## Words and literals -/

/-- The digits that show the magnitude of an integer. -/
def magnitude (n : Int64) : Word := ⟨.int, n.toInt.natAbs.repr⟩

mutual

/-- The words that show data. -/
def words : Value → List Word
  | integer n => if n.toInt < 0 then [symbol .minus, magnitude n] else [magnitude n]
  | boolean b => [if b then ⟨.trueKeyword, "true"⟩ else ⟨.falseKeyword, "false"⟩]
  | array _ elements => symbol .lbracket :: (separated (wordsAll elements) ++ [symbol .rbracket])
  | hash _ entries => symbol .lbrace :: (separated (wordsEntries entries) ++ [symbol .rbrace])
  | _ => []

/-- The words that show several values. -/
def wordsAll : List Value → List (List Word)
  | [] => []
  | v :: rest => words v :: wordsAll rest

/-- The words that show the entries of a hash. -/
def wordsEntries : List (HashKey × (Value × Value)) → List (List Word)
  | [] => []
  | (_, (key, value)) :: rest => (words key ++ symbol .colon :: words value) :: wordsEntries rest

end

mutual

/-- The expression that data is read as. -/
def literal : Value → Node
  | integer n =>
    if n.toInt < 0 then .prefixed "-" (.integer n.toInt.natAbs none) none
    else .integer n.toInt.natAbs none
  | boolean b => .boolean b none
  | array _ elements => .array (literals elements) none
  | hash _ entries => .hash (literalPairs entries) none
  | _ => .bare .expression

/-- The expressions that several values are read as. -/
def literals : List Value → List Node
  | [] => []
  | v :: rest => literal v :: literals rest

/-- The pairs of expressions that the entries of a hash are read as. -/
def literalPairs : List (HashKey × (Value × Value)) → List (Node × Node)
  | [] => []
  | (_, (key, value)) :: rest => (literal key, literal value) :: literalPairs rest

end

theorem wordsAll_eq_map (vs : List Value) : wordsAll vs = vs.map words := by
  induction vs with
  | nil => rfl
  | cons v rest ih => rw [wordsAll, ih]; rfl

theorem wordsEntries_eq_map (es : List (HashKey × (Value × Value))) :
    wordsEntries es = es.map fun e => e.2.1.words ++ symbol .colon :: e.2.2.words := by
  induction es with
  | nil => rfl
  | cons e rest ih => rw [wordsEntries, ih]; rfl

theorem literals_eq_map (vs : List Value) : literals vs = vs.map literal := by
  induction vs with
  | nil => rfl
  | cons v rest ih => rw [literals, ih]; rfl

theorem literalPairs_eq_map (es : List (HashKey × (Value × Value))) :
    literalPairs es = es.map fun e => (e.2.1.literal, e.2.2.literal) := by
  induction es with
  | nil => rfl
  | cons e rest ih => rw [literalPairs, ih]; rfl

/-! ## The words of data -/

variable {v : Value}

theorem toString_of_neg {n : Int} (h : n < 0) : toString n = "-" ++ n.natAbs.repr := by
  have habs : (-n).toNat = n.natAbs := by omega
  rw [show toString n = n.repr from rfl, Int.repr_eq_if, if_neg (Int.not_le.mpr h), habs]

theorem toString_of_nonneg {n : Int} (h : 0 ≤ n) : toString n = n.natAbs.repr := by
  have habs : n.toNat = n.natAbs := by omega
  rw [show toString n = n.repr from rfl, Int.repr_eq_if, if_pos h, habs]

theorem shows_integer (n : Int64) : Shows (integer n).inspect.toList (integer n).words := by
  intro ds hds
  have hmagnitude := shows_repr n.toInt.natAbs ds hds
  rw [words]
  show Scanner.wordsIn ((toString n.toInt).toList ++ ds) = _
  by_cases hneg : n.toInt < 0
  · rw [if_pos hneg, toString_of_neg hneg, String.toList_append, List.append_assoc]
    exact (@Scanner.wordsIn_symbol .minus (by decide) _).trans (congrArg _ hmagnitude)
  · rw [if_neg hneg, toString_of_nonneg (Int.not_lt.mp hneg)]
    exact hmagnitude

theorem IsScalar.shows (h : v.IsScalar) : Shows v.inspect.toList v.words := by
  cases h with
  | integer n => exact shows_integer n
  | boolean b =>
    intro ds hds
    cases b with
    | true => exact wordsIn_name (x := "true") ⟨_, _, rfl, rfl, rfl⟩ hds
    | false => exact wordsIn_name (x := "false") ⟨_, _, rfl, rfl, rfl⟩ hds

/-- Data is shown by its words. -/
theorem IsData.shows (h : v.IsData) : Shows v.inspect.toList v.words := by
  induction h with
  | scalar h => exact h.shows
  | @array id vs _ ih =>
    have hall : Shows (Text.joined ", " (inspectAll vs)).toList (separated (wordsAll vs)) := by
      rw [inspectAll_eq_map, wordsAll_eq_map]
      exact shows_separated (forall₂_map_map ih)
    exact @shows_between _ _ .lbracket .rbracket hall (by decide) (by decide)
      fun ds => apart_cons rfl ds
  | @hash id es _ hkeys _ ih =>
    have hall : Shows (Text.joined ", " (inspectEntries es)).toList
        (separated (wordsEntries es)) := by
      rw [inspectEntries_eq_map, wordsEntries_eq_map]
      refine shows_separated (forall₂_map_map ?_)
      exact fun e he => shows_append (hkeys e he).1.shows (ih e he) (by decide) rfl
        fun _ => apart_cons rfl _
    exact @shows_between _ _ .lbrace .rbrace hall (by decide) (by decide)
      fun ds => apart_cons rfl ds

/-! ## The literals of data -/

theorem written_integer {n : Int64} (h : n ≠ Int64.minValue) :
    Written (.bare (integer n).literal) (integer n).words := by
  have hle : (n.toInt.natAbs : Int) ≤ Parser.greatestInteger := by
    have hne : n.toInt ≠ -9223372036854775808 := fun heq => h (Int64.toInt_inj.mp heq)
    have hleast := n.le_toInt
    have hgreatest := n.toInt_lt
    unfold Parser.greatestInteger
    omega
  have hmagnitude : Written (.bare (.integer n.toInt.natAbs none)) [magnitude n] :=
    .integer (spellsNumber_repr hle) hle
  rw [literal, words]
  by_cases hneg : n.toInt < 0
  · rw [if_pos hneg, if_pos hneg]
    exact .prefixed (.inr rfl) (.plain hmagnitude id)
  · rw [if_neg hneg, if_neg hneg]
    exact hmagnitude

theorem IsScalar.written (h : v.IsScalar) (hleast : v ≠ .integer Int64.minValue) :
    Written (.bare v.literal) v.words := by
  cases h with
  | integer n => exact written_integer fun heq => hleast (congrArg _ heq)
  | boolean b =>
    cases b with
    | true => exact .trueLiteral
    | false => exact .falseLiteral

/-- The words of data without the least integer write its literal. -/
theorem IsData.written (h : v.IsData) (hleast : v.WithoutLeast) :
    Written (.bare v.literal) v.words := by
  induction h with
  | scalar h => exact h.written hleast.here
  | @array id vs _ ih =>
    have hall : Written (.items (literals vs)) (separated (wordsAll vs)) := by
      rw [literals_eq_map, wordsAll_eq_map]
      refine written_items (forall₂_map_map ?_)
      exact fun v hv => ih v hv (hleast.elements v hv)
    exact .array hall
  | @hash id es _ hkeys _ ih =>
    have hall : Written (.pairs (literalPairs es)) (separated (wordsEntries es)) := by
      rw [literalPairs_eq_map, wordsEntries_eq_map]
      refine written_pairs (forall₂_map_map ?_)
      intro e he
      have hkey := (hkeys e he).1.written (hleast.keys e he).here
      exact ⟨_, _, hkey, ih e he (hleast.entries e he), rfl⟩
    exact .hash hall

mutual

/-- Literals have no tokens. -/
theorem strip_literal : (v : Value) → v.literal.strip = v.literal
  | .integer n => by
    rw [literal]
    split <;> rfl
  | .boolean _ => rfl
  | .array _ vs => by rw [literal, Node.strip, stripAll_literals]
  | .hash _ es => by rw [literal, Node.strip, stripPairs_literalPairs]
  | .string _ | .null | .function .. | .builtin _ | .returned .. | .error .. | .tagged ..
  | .absent => rfl

theorem stripAll_literals : (vs : List Value) → Node.stripAll (literals vs) = literals vs
  | [] => rfl
  | v :: rest => by rw [literals, Node.stripAll, strip_literal, stripAll_literals]

theorem stripPairs_literalPairs : (es : List (HashKey × (Value × Value))) →
    Node.stripPairs (literalPairs es) = literalPairs es
  | [] => rfl
  | (_, (key, value)) :: rest => by
    rw [literalPairs, Node.stripPairs, strip_literal, strip_literal, stripPairs_literalPairs]

end

/-! ## The least integer -/

theorem mem_words_array_iff {id : ObjectId} {vs : List Value} {w : Word} (hint : w.kind = .int) :
    w ∈ (array id vs).words ↔ ∃ v ∈ vs, w ∈ v.words := by
  have hne {kind : Kind} (h : kind ≠ .int) : w ≠ symbol kind := by
    rintro rfl
    exact h hint
  rw [words, List.mem_cons, List.mem_append, List.mem_singleton, mem_separated_iff (hne nofun),
    wordsAll_eq_map]
  simp [hne]

theorem mem_words_hash_iff {id : ObjectId} {es : List (HashKey × (Value × Value))} {w : Word}
    (hint : w.kind = .int) :
    w ∈ (hash id es).words ↔ ∃ e ∈ es, w ∈ e.2.1.words ∨ w ∈ e.2.2.words := by
  have hne {kind : Kind} (h : kind ≠ .int) : w ≠ symbol kind := by
    rintro rfl
    exact h hint
  rw [words, List.mem_cons, List.mem_append, List.mem_singleton, mem_separated_iff (hne nofun),
    wordsEntries_eq_map]
  simp [hne]

theorem IsScalar.exists_magnitude (h : v.IsScalar) {w : Word} (hw : w ∈ v.words)
    (hint : w.kind = .int) : ∃ n, w = magnitude n := by
  cases h with
  | integer n =>
    rw [words] at hw
    by_cases hneg : n.toInt < 0
    · rw [if_pos hneg, List.mem_cons, List.mem_singleton] at hw
      rcases hw with rfl | hw
      · cases hint
      · exact ⟨n, hw⟩
    · rw [if_neg hneg, List.mem_singleton] at hw
      exact ⟨n, hw⟩
  | boolean b =>
    rw [words, List.mem_singleton] at hw
    cases b <;> (rw [hw] at hint; cases hint)

/-- Every numeral among the words of data is the magnitude of an integer. -/
theorem IsData.exists_magnitude (h : v.IsData) {w : Word} (hw : w ∈ v.words)
    (hint : w.kind = .int) : ∃ n, w = magnitude n := by
  induction h with
  | scalar h => exact h.exists_magnitude hw hint
  | array id _ ih =>
    obtain ⟨v, hv, hw⟩ := (mem_words_array_iff hint).mp hw
    exact ih v hv hw
  | hash id _ hkeys _ ih =>
    obtain ⟨e, he, hw | hw⟩ := (mem_words_hash_iff hint).mp hw
    · exact (hkeys e he).1.exists_magnitude hw hint
    · exact ih e he hw

/-- If the magnitude of the least integer is not among the words of data, neither does the least
    integer occur in it. -/
theorem IsData.withoutLeast (h : v.IsData) (hw : magnitude Int64.minValue ∉ v.words) :
    v.WithoutLeast := by
  have hscalar {v : Value} (h : v.IsScalar) (hw : magnitude Int64.minValue ∉ v.words) :
      v.WithoutLeast := by
    cases h with
    | integer n =>
      refine .plain rfl fun heq => hw ?_
      rw [heq]
      decide
    | boolean b => exact .plain rfl nofun
  induction h with
  | scalar h => exact hscalar h hw
  | @array id vs _ ih =>
    refine .array nofun fun v hv => ih v hv fun hmem => hw ?_
    exact (mem_words_array_iff rfl).mpr ⟨v, hv, hmem⟩
  | @hash id es _ hkeys _ ih =>
    refine .hash nofun (fun e he => ?_) fun e he => ?_
    · refine hscalar (hkeys e he).1 fun hmem => hw ?_
      exact (mem_words_hash_iff rfl).mpr ⟨e, he, .inl hmem⟩
    · refine ih e he fun hmem => hw ?_
      exact (mem_words_hash_iff rfl).mpr ⟨e, he, .inr hmem⟩

end Value

end Monkey
