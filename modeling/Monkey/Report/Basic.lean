import Monkey.Report.Record

/-!
# Reports

All mistakes found in one source text, under the name of the file it came from.
-/

namespace Monkey

/-- The mistakes of a program that cannot be run. -/
structure Report where
  records : List Report.Record
  fileName : String
deriving DecidableEq, Repr

namespace Report

/-- The name of a source text that is no file. -/
def unnamedSource : String := "<input>"

/-- A report on a source text.  With an empty text the records stay as they are. -/
def ofRecords (records : List Record) (source fileName : String) : Report :=
  { records := if source.isEmpty then records else records.map (·.withSource source), fileName }

/-- A report on what the parser found. -/
def ofDiagnostics (ds : List Diagnostic) (source fileName : String) : Report :=
  ofRecords (ds.map Record.ofDiagnostic) source fileName

/-- One line that says how many mistakes there are. -/
def summary (r : Report) : String :=
  toString r.records.length ++ " parse error(s) in " ++ r.fileName

/-- The messages of the mistakes. -/
def messages (r : Report) : List String :=
  r.records.map Record.message

/-- The whole text of a report. -/
def text (r : Report) : String :=
  r.summary ++ ":\n" ++ Text.joined "\n" (r.records.map Record.format)

end Report

end Monkey
