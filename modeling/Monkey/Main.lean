import Monkey.CommandLine.Basic

/-!
# The program

The command as a program: the words of the command line, files and the standard streams.
-/

namespace Monkey.Main

open CommandLine

/-- What is found under the path of a file.  An error that names the path comes from
    opening it; a directory opens and fails when it is read. -/
def readContent (path : String) : IO FileContent := do
  try
    let data ← IO.FS.readBinFile path
    pure (.bytes data.data.toList)
  catch e =>
    match e with
    | .noFileOrDirectory .. => pure .missing
    | .inappropriateType none .. => pure .directory
    | .invalidArgument .. => pure .nameTooLong
    | _ => pure .notDirectory

/-- Writes lines to the standard output. -/
def writeLines (lines : List String) : IO Unit := do
  let stdout ← IO.getStdout
  stdout.putStr (Text.lines lines)
  stdout.flush

/-- Answers the lines of the standard input until one asks to leave. -/
partial def converse (s : Session) : IO UInt32 := do
  let stdin ← IO.getStdin
  let stdout ← IO.getStdout
  stdout.putStr Shell.prompt
  stdout.flush
  let line ← stdin.getLine
  if line.isEmpty then
    writeLines Shell.farewell
    pure 0
  else
    let text :=
      if line.toList.getLast? = some '\n' then String.ofList line.toList.dropLast else line
    match Shell.react s text with
    | .error crash =>
      IO.eprintln crash.message
      pure 1
    | .ok r =>
      writeLines r.reply
      if r.ended then pure 0 else converse r.session

/-- What evaluation is set to.  Calls may be nested about as deeply as the host has room for those
    of a plain recursive function.  Texts that are read here have no unpaired surrogates. -/
def setting (tracing : Bool) : Setting := { tracing, callLimit := 1600 }

/-- Opens the shell. -/
def openShell (introduced tracing : Bool) : IO UInt32 := do
  if introduced then writeLines languageLines
  writeLines (Shell.greeting tracing false)
  converse (Session.start (setting tracing))

/-- Writes a response and gives the exit code. -/
def finish (response : Response) : IO UInt32 := do
  IO.print response.out
  IO.eprint response.err
  pure response.exitCode.toUInt32

/-- The message of a command that breaks off. -/
def abortMessage (path : String) : Abort → String
  | .crashed crash => crash.message
  | .isDirectory => "Is a directory: " ++ path
  | .notDirectory => "Not a directory: " ++ path
  | .nameTooLong => "Cannot open: " ++ path

/-- Runs the command on the words of its command line. -/
def start (words : List String) : IO UInt32 := do
  let request := Request.ofWords words
  match request with
  | .shell introduced tracing => openShell introduced tracing
  | .script path mode tracing =>
    match ← readContent (plainPath path) with
    | .missing | .notDirectory => finish (missingScript path)
    | _ =>
      match respondToScript (setting tracing) path (← readContent path) mode with
      | .ok response => finish response
      | .error abort =>
        IO.eprintln (abortMessage path abort)
        pure 1
  | _ =>
    match request.plainResponse? with
    | some response => finish response
    | none => pure 0

end Monkey.Main

/-- Runs the command. -/
def main (words : List String) : IO UInt32 :=
  Monkey.Main.start words
