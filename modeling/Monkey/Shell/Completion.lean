import Monkey.Builtin
import Monkey.Token.Basic

/-!
# Completion

The words that the shell offers to complete a text.
-/

namespace Monkey.Shell

/-- Texts in alphabetical order. -/
def sorted (texts : List String) : List String :=
  texts.mergeSort fun s t => s ≤ t

/-- The words that can be completed: keywords, builtins and commands. -/
def completionWords (builtins : List Builtin) : List String :=
  sorted (Kind.keywords.map Prod.fst) ++ Builtin.names builtins ++
    [":tokens", ":ast", ":env", ":help", "exit"]

/-- The words that start with a text. -/
def completions (builtins : List Builtin) (text : String) : List String :=
  (completionWords builtins).filter fun word => text.toList.isPrefixOf word.toList

end Monkey.Shell
