import Monkey.Numeral
import Monkey.Text.Quoted

/-!
# Command-line options

Reading the words of a command line.  Long options may be cut short where that leaves one
of them, short options may be run together, and after a double dash all words are operands.
There is at most one operand, the script.
-/

namespace Monkey.CommandLine

/-- The options of the command. -/
inductive Flag where
  | help
  | interactive
  | parse
  | tokens
  | debug
  | version
deriving DecidableEq, Repr

namespace Flag

/-- How the options are spelled, in the order in which they are documented. -/
def spellings : List (String × Flag) :=
  [("-h", help), ("--help", help), ("-i", interactive), ("--interactive", interactive),
    ("--parse", parse), ("--tokens", tokens), ("--debug", debug), ("--version", version)]

/-- The option with a spelling. -/
def ofSpelling? (s : String) : Option Flag := spellings.lookup s

/-- All spellings of an option, as messages show them. -/
def displayName (f : Flag) : String :=
  "/".intercalate ((spellings.filter fun p => p.2 == f).map Prod.fst)

end Flag

/-- Why a command line is refused. -/
inductive UsageError where
  | ambiguous (word : String) (matching : List String)
  | strayArgument (flag : Flag) (argument : String)
  | unrecognized (words : List String)
deriving DecidableEq, Repr

/-- The message of a refusal. -/
def UsageError.message : UsageError → String
  | ambiguous word matching =>
    "ambiguous option: " ++ word ++ " could match " ++ ", ".intercalate matching
  | strayArgument flag argument =>
    "argument " ++ flag.displayName ++ ": ignored explicit argument " ++ Text.quoted argument
  | unrecognized words => "unrecognized arguments: " ++ " ".intercalate words

/-- What a word of a command line is. -/
inductive Word where
  /-- A word that is no option. -/
  | operand (text : String)
  /-- The double dash after which there are no options. -/
  | separator
  /-- An option, whether it is spelled out behind two dashes, and the text attached to
      it. -/
  | option (flag : Flag) (isLong : Bool) (attached : Option (List Char))
  /-- A word that looks like an option but is none. -/
  | unknown (text : String)
deriving DecidableEq, Repr

/-- A decimal digit of any script. -/
def isAnyDigit (c : Char) : Bool := (Numeral.toAscii c).isDigit

/-- Whether the characters after a dash make a negative number: digits, or a point among
    digits with at least one after it.  A line feed may follow. -/
def isNumber (cs : List Char) : Bool :=
  let body := if cs.getLast? = some '\n' then cs.dropLast else cs
  let (whole, rest) := (body.takeWhile isAnyDigit, body.dropWhile isAnyDigit)
  match rest with
  | [] => !whole.isEmpty
  | '.' :: fraction => !fraction.isEmpty && fraction.all isAnyDigit
  | _ => false

/-- The parts of a word before and after its first equals sign. -/
def splitAtEquals (cs : List Char) : List Char × Option (List Char) :=
  match cs.dropWhile (· != '=') with
  | [] => (cs, none)
  | _ :: after => (cs.takeWhile (· != '='), some after)

/-- Whether a word starts with two dashes. -/
def startsLong (cs : List Char) : Bool := ['-', '-'].isPrefixOf cs

/-- The options that a word with a dash may stand for, with their spellings.  A word with
    two dashes stands for every spelling that it starts, up to its equals sign; any other
    stands for the option of its first letter, to which the rest is attached. -/
def candidates (cs : List Char) : List (String × Word) :=
  if startsLong cs then
    let (start, attached) := splitAtEquals cs
    (Flag.spellings.filter fun p => start.isPrefixOf p.1.toList).map fun p =>
      (p.1, .option p.2 true attached)
  else
    (Flag.spellings.filter fun p => p.1.toList == cs.take 2).map fun p =>
      (p.1, .option p.2 false (some (cs.drop 2)))

/-- The option that the part of a word before an equals sign spells. -/
def spelledBeforeEquals? (cs : List Char) : Option Word :=
  match splitAtEquals cs with
  | (start, some attached) =>
    (Flag.ofSpelling? (String.ofList start)).map fun f =>
      .option f (startsLong start) (some attached)
  | (_, none) => none

/-- What a word before the double dash is. -/
def classify (word : String) : Except UsageError Word :=
  let cs := word.toList
  match cs with
  | [] | ['-'] => .ok (.operand word)
  | c :: rest =>
    if c ≠ '-' then .ok (.operand word)
    else
      match Flag.ofSpelling? word, spelledBeforeEquals? cs, candidates cs with
      | some f, _, _ => .ok (.option f (startsLong cs) none)
      | none, some w, _ => .ok w
      | none, none, [(_, w)] => .ok w
      | none, none, [] =>
        if isNumber rest || cs.contains ' ' then .ok (.operand word) else .ok (.unknown word)
      | none, none, several => .error (.ambiguous word (several.map Prod.fst))

/-- What the words of a command line are. -/
def classifyAll : List String → Except UsageError (List Word)
  | [] => .ok []
  | "--" :: rest => .ok (.separator :: rest.map .operand)
  | word :: rest => do
    let w ← classify word
    let ws ← classifyAll rest
    pure (w :: ws)

/-- The options run together: a short one and those that the letters behind it spell. -/
def cluster (flag : Flag) : List Char → Except UsageError (List Flag)
  | [] => .ok [flag]
  | c :: rest =>
    match Flag.ofSpelling? (String.ofList ['-', c]) with
    | some next => (cluster next rest).map (flag :: ·)
    | none => .error (.strayArgument flag (String.ofList (c :: rest)))

/-- The options that one word gives.  No option takes an argument; the text attached to a
    short one is read as further short ones. -/
def flagsOf (flag : Flag) (isLong : Bool) : Option (List Char) → Except UsageError (List Flag)
  | none => .ok [flag]
  | some text =>
    if isLong || text.isEmpty then .error (.strayArgument flag (String.ofList text))
    else cluster flag text

/-- What is known of a command line from the words read so far. -/
structure Settings where
  interactive : Bool := false
  parse : Bool := false
  tokens : Bool := false
  debug : Bool := false
  script : Option String := none
  /-- Whether the word just read was taken for the script. -/
  scriptJustRead : Bool := false
  extras : List String := []
deriving DecidableEq, Repr

/-- What a command line asks for. -/
inductive Reading where
  | help
  | version
  | refused (error : UsageError)
  | settings (s : Settings)
deriving DecidableEq, Repr

/-- Takes up options in order; help and version end the reading at once. -/
def applyFlags (s : Settings) : List Flag → Except Reading Settings
  | [] => .ok { s with scriptJustRead := false }
  | .help :: _ => .error .help
  | .version :: _ => .error .version
  | .interactive :: rest => applyFlags { s with interactive := true } rest
  | .parse :: rest => applyFlags { s with parse := true } rest
  | .tokens :: rest => applyFlags { s with tokens := true } rest
  | .debug :: rest => applyFlags { s with debug := true } rest

/-- Takes up one word. -/
def applyWord (s : Settings) : Word → Except Reading Settings
  | .operand text =>
    match s.script with
    | none => .ok { s with script := some text, scriptJustRead := true }
    | some _ => .ok { s with extras := s.extras ++ [text], scriptJustRead := false }
  | .separator =>
    if s.script.isNone || s.scriptJustRead then .ok { s with scriptJustRead := false }
    else .ok { s with extras := s.extras ++ ["--"] }
  | .unknown text => .ok { s with extras := s.extras ++ [text], scriptJustRead := false }
  | .option flag isLong attached =>
    match flagsOf flag isLong attached with
    | .error e => .error (.refused e)
    | .ok flags => applyFlags s flags

/-- Takes up words in order. -/
def applyWords (s : Settings) : List Word → Except Reading Settings
  | [] => .ok s
  | w :: rest => do
    let s ← applyWord s w
    applyWords s rest

/-- What the words of a command line ask for. -/
def read (words : List String) : Reading :=
  match classifyAll words with
  | .error e => .refused e
  | .ok ws =>
    match applyWords {} ws with
    | .error reading => reading
    | .ok s => if s.extras.isEmpty then .settings s else .refused (.unrecognized s.extras)

end Monkey.CommandLine
