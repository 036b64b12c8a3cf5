import Monkey.Diagnostic
import Monkey.Report.Context

/-!
# Mistake records

A mistake as a report shows it: message, position, what was expected and found, the source
around it and hints.  Records are made from diagnostics, or by hand.
-/

namespace Monkey.Report

/-- A mistake with everything a report says about it.  `got` is the literal text found;
    it is empty at the end of the input. -/
structure Record where
  message : String
  line : Int
  column : Int
  expected : List String := []
  got : Option String := none
  context : Option String := none
  hints : List String := []
deriving DecidableEq, Repr

/-- The record of a diagnostic, without source and hints. -/
def Record.ofDiagnostic (d : Diagnostic) : Record :=
  { message := d.message, line := d.token.line, column := d.token.column,
    expected := d.expected, got := some d.token.literal }

/-- The words that cannot be names. -/
def reservedWords : List String :=
  ["fn", "let", "if", "else", "true", "false", "return"]

/-- Hints about a mistake, from what was expected and what was found. -/
def hints (expected : List String) (got : Option String) : List String :=
  (if expected.contains ")" then ["Check for a missing closing parenthesis"] else []) ++
  (if expected.contains "]" then ["Check for a missing closing bracket"] else []) ++
  (if expected.contains "\x7d" then ["Check for a missing closing brace"] else []) ++
  (match got with
    | some word =>
      if expected.contains "IDENT" && reservedWords.contains word then
        ["'" ++ word ++ "' is a keyword and cannot be used as a name"]
      else []
    | none => []) ++
  (if expected.contains "=" && got == some "==" then
    ["Bindings use a single '=': let x = 5;"] else []) ++
  (if got == some "" then
    ["The input ended early; the last expression is incomplete"] else [])

namespace Record

/-- A record with the source around it, and with hints unless it has some. -/
def withSource (r : Record) (source : String) : Record :=
  { r with
    context := some (Report.context source r.line r.column contextMargin)
    hints := if r.hints.isEmpty then Report.hints r.expected r.got else r.hints }

/-- The lines that show a record. -/
def shownLines (r : Record) : List String :=
  ["Parse error at line " ++ toString r.line ++ ", column " ++ toString r.column ++ ":",
    "  " ++ r.message] ++
  (if r.expected.isEmpty then [] else ["  Expected: " ++ Text.joined ", " r.expected]) ++
  (match r.got with
    | none => []
    | some "" => ["  Got: end of input"]
    | some got => ["  Got: " ++ got]) ++
  (match r.context with
    | none | some "" => []
    | some context => ["  Context:", context]) ++
  (if r.hints.isEmpty then [] else "  Suggestions:" :: r.hints.map ("    - " ++ ·))

/-- The text that shows a record. -/
def format (r : Record) : String :=
  Text.lines r.shownLines

end Record

end Monkey.Report
