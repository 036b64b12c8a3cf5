import Monkey.Node.Text
import Monkey.Value.Basic

/-!
# Shown values

The text that shows a value.
-/

namespace Monkey.Value

mutual

/-- The text that shows a value. -/
def inspect : Value → String
  | integer n => toString n.toInt
  | boolean b => if b then "true" else "false"
  | string s => s
  | null => "null"
  | array _ elements => "[" ++ Text.joined ", " (inspectAll elements) ++ "]"
  | hash _ entries => "\x7b" ++ Text.joined ", " (inspectEntries entries) ++ "\x7d"
  | function _ parameters body _ =>
    "fn(" ++ Text.joined ", " (parameters.map Name.value) ++ ") " ++ body.text
  | builtin b => "builtin function " ++ b.name
  | returned _ payload => inspect payload
  | error _ message => "ERROR: " ++ message
  | tagged _ tag => "<" ++ tag ++ ">"
  | absent => ""

/-- The texts that show several values. -/
def inspectAll : List Value → List String
  | [] => []
  | v :: rest => inspect v :: inspectAll rest

/-- The texts that show the entries of a hash. -/
def inspectEntries : List (HashKey × (Value × Value)) → List String
  | [] => []
  | (_, (key, value)) :: rest => (inspect key ++ ": " ++ inspect value) :: inspectEntries rest

end

mutual

/-- Whether a value can be shown: neither it nor anything in it is absent. -/
def isWhole : Value → Bool
  | array _ elements => areWhole elements
  | hash _ entries => entriesAreWhole entries
  | returned _ payload => isWhole payload
  | absent => false
  | _ => true

/-- Whether several values can be shown. -/
def areWhole : List Value → Bool
  | [] => true
  | v :: rest => isWhole v && areWhole rest

/-- Whether the entries of a hash can be shown. -/
def entriesAreWhole : List (HashKey × (Value × Value)) → Bool
  | [] => true
  | (_, (key, value)) :: rest => isWhole key && isWhole value && entriesAreWhole rest

end

theorem inspectAll_eq_map (vs : List Value) : inspectAll vs = vs.map inspect := by
  induction vs with
  | nil => rfl
  | cons v rest ih => rw [inspectAll, ih]; rfl

theorem inspectEntries_eq_map (es : List (HashKey × (Value × Value))) :
    inspectEntries es = es.map fun e => inspect e.2.1 ++ ": " ++ inspect e.2.2 := by
  induction es with
  | nil => rfl
  | cons e rest ih => rw [inspectEntries, ih]; rfl

end Monkey.Value
