import Monkey.Node.Dump
import Monkey.Session
import Monkey.Shell.Command

/-!
# The interactive shell

A conversation: a line is read, answered, and the next is prompted for, until a line asks
to leave or there are no more lines.
-/

namespace Monkey

/-- The name and version of the language. -/
def versionText : String := "Monkey v1.0.0"

namespace Shell

/-- What is written before a line is read. -/
def prompt : String := ">> "

/-- The lines written when the input ends. -/
def farewell : List String := ["", "Goodbye!"]

/-- The lines that open a conversation. -/
def greeting (tracing lineEditing : Bool) : List String :=
  [versionText ++ " - Interactive Mode", "Type 'exit' to quit, ':help' for commands"] ++
  (if lineEditing then ["Readline enabled: Use ↑/↓ for history, Tab for completion"] else []) ++
  (if tracing then ["Debug mode enabled"] else []) ++ [""]

/-- The lines that list the mistakes of a program. -/
def mistakeLines (errors : List String) : List String :=
  ["Woops! We ran into some monkey business here!", " parser errors:"] ++ errors.map ("\t" ++ ·)

/-- The lines that explain the shell. -/
def helpLines (builtins : List Builtin) : List String :=
  ["REPL Commands:",
    "  :tokens <src>     - Show the token stream",
    "  :ast <src>        - Show the parsed AST",
    "  :env              - Show current environment",
    "  :help             - Show this help",
    "  exit              - Exit REPL",
    "",
    "Language features:",
    "  let x = 5;                          - Binding",
    "  let add = fn(a, b) \x7b a + b \x7d;       - Function literal",
    "  add(1, 2)                           - Call",
    "  if (x > 1) \x7b \"big\" \x7d else \x7b \"small\" \x7d - Conditional",
    "  [1, 2, 3][0]  \x7b\"a\": 1\x7d[\"a\"]         - Arrays and hashes",
    "  Builtins: " ++ Text.joined ", " (Builtin.names builtins)]

/-- The most characters of a value that the list of bindings shows. -/
def shownWidth : Nat := 60

/-- A text cut to the width of the list of bindings. -/
def clipped (s : String) : String :=
  if shownWidth < s.length then String.ofList (s.toList.take (shownWidth - 3)) ++ "..." else s

/-- The lines that list bindings. -/
def bindingLines (bindings : List (String × Value)) : List String :=
  "Current environment:" ::
    (if bindings.isEmpty then ["  (no user-defined bindings)"]
    else bindings.map fun (name, v) => "  " ++ name ++ " = " ++ clipped v.inspect)

/-- The lines that show a parsed program, or its mistakes. -/
def treeLines (tracing : Bool) (p : Parse) : List String :=
  (if tracing then p.trace else []) ++
    (if p.diagnostics.isEmpty then [p.program.text, p.program.dump 0]
    else mistakeLines p.errors)

/-- The lines that show how a program ended.  Nothing but calls nested too deeply is caught. -/
def outcomeLines : Session.Outcome → Except Crash (List String)
  | .rejected errors => .ok (mistakeLines errors)
  | .finished .absent => .ok []
  | .finished v => .ok [v.inspect]
  | .stopped .callDepth => .ok ["Fatal error: " ++ Stop.callDepth.message]
  | .stopped reason => .error (.stopped reason)

/-- What a line brings about: the lines that answer it, the session after it, and whether
    the conversation has ended. -/
structure Reaction where
  reply : List String
  session : Session
  ended : Bool := false

/-- Answers a line. -/
def react (s : Session) (line : String) : Except Crash Reaction :=
  match Command.ofLine line with
  | .leave => .ok { reply := [], session := s, ended := true }
  | .nothing => .ok { reply := [], session := s }
  | .tokens source =>
    .ok { reply := (scan source).map fun t => "  " ++ t.describe, session := s }
  | .tree source => do
    let p ← (parse source).mapError .unreadable
    pure { reply := treeLines s.tracing p, session := s }
  | .environment => .ok { reply := bindingLines s.bindings, session := s }
  | .help => .ok { reply := helpLines s.builtins, session := s }
  | .run source => do
    let (answer, t) ← (s.run source).mapError .unreadable
    let lines ← outcomeLines answer.outcome
    pure { reply := answer.output.map OutputLine.text ++ lines, session := t }

/-- A conversation: the replies to the lines read, whether it was left before the input
    ended, and the session after it. -/
structure Conversation where
  replies : List (List String)
  left : Bool
  session : Session

/-- Answers lines until one asks to leave. -/
def converse (s : Session) : List String → Except Crash Conversation
  | [] => .ok ⟨[], false, s⟩
  | line :: rest => do
    let r ← react s line
    if r.ended then pure ⟨[r.reply], true, r.session⟩
    else
      let c ← converse r.session rest
      pure { c with replies := r.reply :: c.replies }

/-- Everything that a conversation shows. -/
def Conversation.text (c : Conversation) : String :=
  Text.joined "" (c.replies.map fun reply => prompt ++ Text.lines reply) ++
    (if c.left then "" else prompt ++ Text.lines farewell)

/-- Everything that a shell shows, from the greeting on. -/
def transcript (setting : Setting) (lineEditing : Bool) (lines : List String) :
    Except Crash String := do
  let c ← converse (.start setting) lines
  pure (Text.lines (greeting setting.tracing lineEditing) ++ c.text)

end Shell

end Monkey
