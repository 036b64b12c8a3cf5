import Monkey.CommandLine.Help
import Monkey.CommandLine.Options
import Monkey.Report.Basic
import Monkey.Shell.Basic
import Monkey.Text.Parts
import Monkey.Text.Utf8

/-!
# The command

What the command does with its words, its files and its input: it shows tokens, trees or
help, runs a script, or opens the shell.
-/

namespace Monkey.CommandLine

/-- What is found under the path of a file. -/
inductive FileContent where
  | missing
  | directory
  /-- The path goes on below a file. -/
  | notDirectory
  /-- A part of the path is longer than a name can be. -/
  | nameTooLong
  | bytes (data : List UInt8)
deriving DecidableEq, Repr

/-- A path without the parts that lead nowhere: empty ones and single dots. -/
def plainPath (path : String) : String :=
  let parts := (Text.parts '/' path.toList).filter fun part => part ≠ [] ∧ part ≠ ['.']
  let plain := "/".intercalate (parts.map String.ofList)
  if path.toList.head? = some '/' then "/" ++ plain else if parts.isEmpty then "." else plain

/-- Why the command breaks off. -/
inductive Abort where
  /-- Something ends it that nothing catches. -/
  | crashed (crash : Crash)
  /-- A directory was given for a script. -/
  | isDirectory
  /-- A file stands where a directory is needed. -/
  | notDirectory
  /-- The path of a script has a part that is too long. -/
  | nameTooLong
deriving DecidableEq, Repr

/-- What the command writes and how it ends. -/
structure Response where
  out : String
  err : String := ""
  exitCode : Nat := 0
deriving DecidableEq, Repr

/-- A response of lines. -/
def Response.ofLines (lines : List String) (exitCode : Nat) : Response :=
  { out := Text.lines lines, exitCode }

/-- What to do with a script. -/
inductive ScriptMode where
  | tokens
  | tree
  | run
deriving DecidableEq, Repr

/-- What the words of the command line ask for. -/
inductive Request where
  | refused (error : UsageError)
  | version
  | help
  | overview
  | shell (introduced tracing : Bool)
  | script (path : String) (mode : ScriptMode) (tracing : Bool)
deriving DecidableEq, Repr

/-- The request that words make. -/
def Request.ofWords (words : List String) : Request :=
  match CommandLine.read words with
  | .refused e => .refused e
  | .version => .version
  | .help => .help
  | .settings s =>
    if words.isEmpty then .shell true false
    else
      match s.script.filter (· ≠ "") with
      | some path =>
        .script path (if s.tokens then .tokens else if s.parse then .tree else .run) s.debug
      | none => if s.interactive then .shell false s.debug else .overview

/-- The source text of a script, or the response that says why there is none. -/
def sourceOf (path : String) : FileContent → Except Abort (Except Response String)
  | .missing =>
    .ok (.error (.ofLines ["Error: Script file '" ++ path ++ "' not found",
      "  Hint: Check the file path and make sure the file exists"] 1))
  | .directory => .error .isDirectory
  | .notDirectory => .error .notDirectory
  | .nameTooLong => .error .nameTooLong
  | .bytes data =>
    match Text.decodeFile data with
    | .ok source => .ok (.ok source)
    | .error e =>
      .ok (.error (.ofLines ["Error: Cannot decode file '" ++ path ++ "': " ++ e.message,
        "  Hint: Make sure the file is a text file with UTF-8 encoding"] 1))

/-- The lines that show the tokens of a source text. -/
def tokenLines (source : String) : List String :=
  (scan source).map Token.describe

/-- The lines that show the statements of a program, one by one. -/
def statementLines (tracing : Bool) (statements : List Node) : List String :=
  statements.zipIdx.flatMap fun (n, i) =>
    ["", "Statement " ++ toString (i + 1) ++ ": " ++ n.text] ++
      (if tracing then [n.dump 0] else [])

/-- The lines of a report, and the failure it means. -/
def reportResponse (before : List String) (p : Parse) (source path : String) : Response :=
  .ofLines (before ++ [(Report.ofDiagnostics p.diagnostics source path).text]) 1

/-- Shows the tree of a source text. -/
def showTree (path source : String) (tracing : Bool) (p : Parse) : Response :=
  let traced := if tracing then p.trace else []
  if p.diagnostics.isEmpty then
    .ofLines (traced ++
      ["Parsed " ++ toString p.statements.length ++ " top-level statements:", ruler] ++
      statementLines tracing p.statements) 0
  else reportResponse traced p source path

/-- What a script shows at its end, and how the command ends. -/
def outcomeResponse (path : String) (before : List String) :
    Session.Outcome → Except Abort Response
  | .rejected errors => .ok (.ofLines (before ++ errors) 1)
  | .stopped .callDepth =>
    .ok (.ofLines
      (before ++ ["Fatal error in '" ++ path ++ "': " ++ Stop.callDepth.message]) 1)
  | .stopped reason => .error (.crashed (.stopped reason))
  | .finished .absent | .finished .null => .ok (.ofLines before 0)
  | .finished (.error id message) =>
    .ok (.ofLines (before ++ [(Value.error id message).inspect]) 1)
  | .finished v => .ok (.ofLines (before ++ [v.inspect]) 0)

/-- Runs a source text. -/
def runSource (setting : Setting) (path source : String) (p : Parse) : Except Abort Response :=
  let traced := if setting.tracing then p.trace else []
  if p.diagnostics.isEmpty then
    let counted :=
      if setting.tracing then ["Parsed " ++ toString p.statements.length ++ " statements"] else []
    let (answer, _) := (Session.start setting).evaluate p.statements
    outcomeResponse path (traced ++ counted ++ answer.output.map OutputLine.text) answer.outcome
  else .ok (reportResponse traced p source path)

/-- Does with a script what is asked for. -/
def respondToScript (setting : Setting) (path : String) (content : FileContent)
    (mode : ScriptMode) : Except Abort Response := do
  match ← sourceOf path content with
  | .error response => pure response
  | .ok source =>
    match mode with
    | .tokens => pure (.ofLines (tokenLines source) 0)
    | .tree | .run =>
      match parse source with
      | .error refusal => throw (.crashed (.unreadable refusal))
      | .ok p => if mode = .tree then pure (showTree path source setting.tracing p)
                 else runSource setting path source p

/-- The response to a request that neither reads a script nor opens the shell. -/
def Request.plainResponse? : Request → Option Response
  | .refused e =>
    some { out := "", err := Text.lines [usageLine, programName ++ ": error: " ++ e.message],
           exitCode := 2 }
  | .version => some (.ofLines [versionText] 0)
  | .help => some (.ofLines helpLines 0)
  | .overview => some (.ofLines (helpLines ++ [""] ++ languageLines) 0)
  | .shell .. | .script .. => none

/-- The response to a missing script. -/
def missingScript (path : String) : Response :=
  .ofLines ["Error: Script file '" ++ path ++ "' does not exist"] 1

/-- The response of the command to its words, given its files, the lines of its input, and what
    evaluation is set to but for tracing.  A script is missing if nothing is found under its plain
    path. -/
def respond (setting : Setting) (files : String → FileContent) (input words : List String) :
    Except Abort Response :=
  let request := Request.ofWords words
  match request with
  | .script path mode tracing =>
    match files (plainPath path) with
    | .missing | .notDirectory => .ok (missingScript path)
    | _ => respondToScript { setting with tracing } path (files path) mode
  | .shell introduced tracing =>
    match Shell.transcript { setting with tracing } false input with
    | .error crash => .error (.crashed crash)
    | .ok text =>
      .ok { out := (if introduced then Text.lines languageLines else "") ++ text }
  | _ => .ok (request.plainResponse?.getD { out := "" })

end Monkey.CommandLine
