import Monkey.Proofs.Eval.Parallel
import Monkey.Proofs.Script

/-!
# Bindings that a program does not mention

What is bound at top level to a name that does not occur in a program makes no difference to the
program, whatever the value is and whatever else the name stands for.
-/

namespace Monkey

/-- Values are built alike of the same data, and shown by the same text.  The frames that
    functions are closed over are not compared. -/
structure Value.Resembles (v w : Value) : Prop where
  anonymous : v.anonymous = w.anonymous
  inspect : v.inspect = w.inspect

theorem Value.Paired.resembles {π : Pairing} {bound : FrameId} {v w : Value}
    (h : Value.Paired π bound v w) : v.Resembles w :=
  ⟨Paired.anonymous_eq v w h, h.inspect_eq⟩

namespace Session

/-- Programs have ended alike. -/
inductive Outcome.Resembles : Outcome → Outcome → Prop
  | rejected (errors : List String) : Resembles (.rejected errors) (.rejected errors)
  | finished {v w : Value} : v.Resembles w → Resembles (.finished v) (.finished w)
  | stopped (reason : Stop) : Resembles (.stopped reason) (.stopped reason)

/-- On machines that are the same, with roots that are paired, statements whose names count write
    the same and end alike, and what counts is bound at top level alike. -/
theorem evaluate_parallel {π : Pairing} {s t : Session} {ss : List Node}
    (hsetting : t.toSetting = s.toSetting)
    (hpaired : Machine.Paired π { s.machine with output := [] } { t.machine with output := [] })
    (hroots : π.FramesBelow s.machine.heap.frames.size s.root t.root)
    (hss : π.Covers (Node.namesAll ss)) :
    (s.evaluate ss).1.output = (t.evaluate ss).1.output ∧
      (s.evaluate ss).1.outcome.Resembles (t.evaluate ss).1.outcome ∧
      Ordered.Rel Value.Resembles (Ordered.only π.counts (s.evaluate ss).2.bindings)
        (Ordered.only π.counts (t.evaluate ss).2.bindings) := by
  have hgoes : (Law.paired s.toSetting π).Values s.machine.heap.frames.size
      (evalStatements s.toSetting s.root ss) (evalStatements s.toSetting t.root ss) :=
    Law.evalStatements (.inl rfl) (List.forall₂_same.mpr fun _ _ => rfl)
      ⟨hroots, hss, fun _ _ => trivial⟩
  have hend := (hgoes _ { s.machine with output := [] } { t.machine with output := [] }
    (Nat.le_refl _) ⟨rfl, hpaired⟩).2
  have hbindings {m m' : Machine} (hm : m.Paired π m')
      (hle : s.machine.heap.frames.size ≤ m.heap.frames.size) :
      Ordered.Rel Value.Resembles (Ordered.only π.counts (m.heap.bindings s.root))
        (Ordered.only π.counts (m'.heap.bindings t.root)) :=
    (hm.heap.bindings (hroots.mono hle)).mono fun _ _ => Value.Paired.resembles
  unfold Session.evaluate
  rw [perform_eq, perform_eq, hsetting]
  generalize evalStatements s.toSetting s.root ss _ = r,
    evalStatements s.toSetting t.root ss _ = r' at hend
  cases hend with
  | ok hle hm hv =>
    obtain ⟨rfl, hm⟩ := hm
    have hsame := hbindings hm hle
    exact ⟨congrArg List.reverse hm.output, .finished (Value.Paired.resembles hv), hsame⟩
  | error reason hle hm =>
    obtain ⟨rfl, hm⟩ := hm
    have hsame := hbindings hm hle
    exact ⟨congrArg List.reverse hm.output, .stopped reason, hsame⟩
  | excused _ _ h => exact h.elim

/-- The root frame of a session stands inside no other, and just some names are bound in it. -/
def RootBinds (s : Session) (bindings : Ordered String Value) : Prop :=
  s.machine.heap.frames[s.root]? = some ⟨bindings, none⟩

/-- The pairing of the roots of two sessions and of what is made from then on, under which all
    names but one count. -/
def rootPairing (s t : Session) (x : String) : Pairing :=
  Pairing.onward
    { objects := fun _ _ => False
      frames := fun i j => i = s.root ∧ j = t.root
      counts := (· != x)
      objects_iff := False.elim
      frames_iff := fun h h' => ⟨fun _ => h.2.trans h'.2.symm, fun _ => h.1.trans h'.1.symm⟩ }
    s.machine t.machine

theorem only_ne_singleton (x : String) (v : Value) : Ordered.only (· != x) [(x, v)] = [] := by
  simp [Ordered.only]

/-- Two sessions are the same but for what one of them has bound to a name at top level. -/
theorem paired_of_rootBinds {s t : Session} {x : String} {v : Value} (hs : s.RootBinds [])
    (ht : t.RootBinds [(x, v)]) :
    Machine.Paired (s.rootPairing t x) { s.machine with output := [] }
      { t.machine with output := [] } := by
  refine ⟨⟨?_, .new⟩, .new, rfl⟩
  rintro i j ⟨hij, hi⟩
  cases hij with
  | new k => exact absurd hi (Nat.not_lt.mpr (Nat.le_add_right ..))
  | old hroots =>
    obtain ⟨rfl, rfl⟩ := hroots
    refine ⟨_, _, hs, ht, .none, ?_⟩
    show Ordered.Rel _ [] (Ordered.only (· != x) [(x, v)])
    rw [only_ne_singleton]
    exact .nil

/-- A program in a session with nothing bound, and in one where something is bound to a name that
    does not occur in the program: both write the same and come to the same result, if they come
    to one, and leave the same bound to all other names, in the same order. -/
theorem evaluate_unmentioned {s t : Session} {x : String} {v : Value} {ss : List Node}
    (hsetting : t.toSetting = s.toSetting) (hs : s.RootBinds []) (ht : t.RootBinds [(x, v)])
    (hx : x ∉ Node.namesAll ss) :
    (s.evaluate ss).1.output = (t.evaluate ss).1.output ∧
      (s.evaluate ss).1.outcome.Resembles (t.evaluate ss).1.outcome ∧
      Ordered.Rel Value.Resembles (Ordered.only (· != x) (s.evaluate ss).2.bindings)
        (Ordered.only (· != x) (t.evaluate ss).2.bindings) := by
  have hroot : s.root < s.machine.heap.frames.size := (Array.getElem?_eq_some_iff.mp hs).1
  have hroot' : t.root < t.machine.heap.frames.size := (Array.getElem?_eq_some_iff.mp ht).1
  have hss : (s.rootPairing t x).Covers (Node.namesAll ss) :=
    fun y hy => bne_iff_ne.mpr fun h => hx (h ▸ hy)
  exact evaluate_parallel hsetting (paired_of_rootBinds hs ht)
    ⟨.old ⟨rfl, rfl⟩ hroot hroot', hroot⟩ hss

/-- A closure is bound to the name of a builtin that a program does not use. -/
theorem evaluate_unmentioned_builtin :
    let s := Session.start { callLimit := 100 }
    let closure := Value.function 0 [⟨"a", none⟩] (.identifier ⟨"len", none⟩) s.root
    let t : Session := { s with machine := { s.machine with
      heap := s.machine.heap.bind s.root "len" closure, nextObject := 1 } }
    let source := "let f = fn(a) \x7b puts(a); fn(b) \x7b a + b \x7d \x7d; f([1])"
    t.RootBinds [("len", closure)] ∧ ∃ p, parse source = .ok p ∧
      (s.evaluate p.statements).1.output = (t.evaluate p.statements).1.output ∧
      (s.evaluate p.statements).1.outcome.Resembles (t.evaluate p.statements).1.outcome ∧
      Ordered.Rel Value.Resembles (Ordered.only (· != "len") (s.evaluate p.statements).2.bindings)
        (Ordered.only (· != "len") (t.evaluate p.statements).2.bindings) := by
  intro s closure t source
  obtain ⟨p, hparse, hnames⟩ : ∃ p, parse
      "let f = fn(a) \x7b puts(a); fn(b) \x7b a + b \x7d \x7d; f([1])" = .ok p ∧
        "len" ∉ Node.namesAll p.statements :=
    ⟨_, rfl, by decide⟩
  exact ⟨rfl, p, hparse, evaluate_unmentioned rfl rfl rfl hnames⟩

end Session

end Monkey
