import Monkey.Builtin
import Monkey.Text.Blank

/-!
# Help texts

What the command says about itself and about the language.
-/

namespace Monkey.CommandLine

/-- The name of the command. -/
def programName : String := "monkey"

/-- How the command is used, in one line. -/
def usageLine : String :=
  "usage: " ++ programName ++ " [-h] [-i] [--parse] [--tokens] [--debug] [--version] [script]"

/-- The help on the command. -/
def helpLines : List String :=
  [usageLine,
    "",
    "Monkey Programming Language - tree-walking interpreter",
    "",
    "positional arguments:",
    "  script             Monkey script file to execute",
    "",
    "options:",
    "  -h, --help         show this help message and exit",
    "  -i, --interactive  Start interactive mode",
    "  --parse            Parse file and show the AST (for debugging)",
    "  --tokens           Tokenize file and show the token stream (for debugging)",
    "  --debug            Enable debug output for all stages",
    "  --version          show program's version number and exit",
    "",
    "Examples:",
    "  " ++ programName ++ " script.monkey            # Run a Monkey script",
    "  " ++ programName ++ " -i                       # Interactive mode",
    "  " ++ programName ++ " --parse script.monkey    # Parse and show the reconstructed AST",
    "  " ++ programName ++ " --tokens script.monkey   # Show the token stream",
    "  " ++ programName ++ " --debug script.monkey    # Run with parser and evaluator tracing",
    "        "]

/-- A line that sets headings apart. -/
def ruler : String := String.ofList (List.replicate 50 '=')

/-- An introduction to the language. -/
def languageLines : List String :=
  ["Monkey Programming Language",
    ruler,
    "A small dynamically-typed expression language with:",
    "• First-class functions and lexical closures",
    "• Integers, booleans, strings, arrays and hashes",
    "• Builtins: " ++ Text.joined ", " (Builtin.names Builtin.standard),
    ""]

end Monkey.CommandLine
