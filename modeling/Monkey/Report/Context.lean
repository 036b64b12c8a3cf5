import Monkey.Text.Blank
import Monkey.Text.Parts

/-!
# Source context

The lines of a source text around a position, numbered, with a caret under the position.
-/

namespace Monkey.Report

/-- A number set to the right of a field of a given width. -/
def alignedRight (width : Nat) (n : Nat) : String :=
  let digits := toString n
  String.ofList (List.replicate (width - digits.length) ' ') ++ digits

/-- The label of a source line. -/
def lineLabel (number : Nat) : String :=
  alignedRight 4 number ++ ": "

/-- How far from the left edge the first column of a source line is marked. -/
def caretOffset : Nat := 6

/-- The line that marks a column. -/
def caretLine (column : Int) : String :=
  String.ofList (List.replicate (caretOffset + (column - 1).toNat) ' ') ++ "^ Error here"

/-- The display of one source line, with the mark below it on the line at fault. -/
def shownLine (line column : Int) (number : Nat) (text : List Char) : List String :=
  let shown := lineLabel number ++ String.ofList text
  if (number : Int) = line then [shown, caretLine column] else [shown]

/-- The source around a position: the lines at most `around` away from its line. -/
def contextLines (source : String) (line column around : Int) : List String :=
  (Text.parts '\n' source.toList).zipIdx.flatMap fun (text, i) =>
    let number := i + 1
    if line - around ≤ (number : Int) ∧ (number : Int) ≤ line + around then
      shownLine line column number text
    else []

/-- The number of lines shown on either side of a mistake. -/
def contextMargin : Int := 2

/-- The source around a position, as one text. -/
def context (source : String) (line column around : Int) : String :=
  Text.joined "\n" (contextLines source line column around)

end Monkey.Report
