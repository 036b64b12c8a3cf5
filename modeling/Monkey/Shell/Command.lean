import Monkey.Text.Blank

/-!
# Shell commands

What a line typed into the shell asks for.
-/

namespace Monkey.Shell

/-- What a line asks for. -/
inductive Command where
  | leave
  | nothing
  | tokens (source : String)
  | tree (source : String)
  | environment
  | help
  | run (source : String)
deriving DecidableEq, Repr

/-- What follows a given start of a text. -/
def afterStart? (start s : String) : Option String :=
  (start.toList.isPrefixOf? s.toList).map String.ofList

/-- The command of a line.  Blanks around it do not count, but a program is run as it was
    typed. -/
def Command.ofLine (line : String) : Command :=
  let trimmed := Text.trim line
  if trimmed = "exit" then leave
  else if trimmed = "" then nothing
  else
    match afterStart? ":tokens " trimmed with
    | some source => tokens source
    | none =>
      match afterStart? ":ast " trimmed with
      | some source => tree source
      | none =>
        if trimmed = ":env" then environment
        else if trimmed = ":help" then help
        else run line

end Monkey.Shell
