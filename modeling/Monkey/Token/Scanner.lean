import Monkey.Text.Blank
import Monkey.Token.Basic

/-!
# Scanning

Source text to tokens, in one pass.  Between tokens stand white space and comments; a
lexeme is the first of these that matches: a closed string, the longest run of digits, the
longest word, a symbol of two characters, a symbol of one, a single illegal character.
Every text has a token list, and its last token is the end of the text.
-/

namespace Monkey

/-- A place in a source text. -/
structure Position where
  line : Nat
  column : Nat
deriving DecidableEq, Repr

namespace Position

/-- The place of the first character. -/
def start : Position := ⟨1, 1⟩

/-- The place after a character; only a line feed starts a line. -/
def next (p : Position) (c : Char) : Position :=
  if c = '\n' then ⟨p.line + 1, 1⟩ else ⟨p.line, p.column + 1⟩

/-- The place after a run of characters. -/
def after (p : Position) (cs : List Char) : Position :=
  cs.foldl next p

@[simp] theorem after_nil (p : Position) : p.after [] = p := rfl

@[simp] theorem after_cons (p : Position) (c : Char) (cs : List Char) :
    p.after (c :: cs) = (p.next c).after cs := rfl

@[simp] theorem after_append (p : Position) (cs ds : List Char) :
    p.after (cs ++ ds) = (p.after cs).after ds := by
  simp [after]

end Position

namespace Scanner

/-- The white space that separates tokens. -/
def isSpace (c : Char) : Bool :=
  c == ' ' || c == '\n' || c == '\r' || c == '\t'

/-- How many characters of white space and comments a text starts with.  A comment runs
    from two slashes to the end of the line; a backslash before the line feed carries it
    on to the next line.  The flag says that the text starts inside a comment. -/
def triviaLength : Bool → List Char → Nat
  | _, [] => 0
  | true, '\\' :: '\n' :: rest => triviaLength true rest + 2
  | true, c :: rest => triviaLength (c ≠ '\n') rest + 1
  | false, '/' :: '/' :: rest => triviaLength true rest + 2
  | false, c :: rest => if isSpace c then triviaLength false rest + 1 else 0

/-- The characters between an opening quote, already read, and the first quote that no
    backslash escapes.  There are none when the text ends first or a backslash stands
    before a line feed. -/
def stringBody? : List Char → Option (List Char)
  | [] => none
  | '"' :: _ => some []
  | ['\\'] => none
  | '\\' :: c :: rest =>
    if c = '\n' then none else (stringBody? rest).map fun body => '\\' :: c :: body
  | c :: rest => (stringBody? rest).map (c :: ·)

/-- The character that an escape stands for. -/
def escaped (c : Char) : Char :=
  if c = 'n' then '\n' else if c = 't' then '\t' else if c = 'r' then '\r' else c

/-- The text that the inside of a string literal spells. -/
def unescape : List Char → List Char
  | '\\' :: c :: rest => escaped c :: unescape rest
  | c :: rest => c :: unescape rest
  | [] => []

/-- A character that starts a word. -/
def isWordStart (c : Char) : Bool :=
  c.isAlpha || c == '_'

/-- A character that goes on with a word. -/
def isWordPart (c : Char) : Bool :=
  c.isAlphanum || c == '_'

/-- The kind of the symbol that a text starts with, the longer one where two match. -/
def symbol? : Char → List Char → Option Kind
  | '=', '=' :: _ => some .eq
  | '!', '=' :: _ => some .notEq
  | '=', _ => some .assign
  | '+', _ => some .plus
  | '-', _ => some .minus
  | '!', _ => some .bang
  | '*', _ => some .asterisk
  | '/', _ => some .slash
  | '<', _ => some .lt
  | '>', _ => some .gt
  | ',', _ => some .comma
  | ';', _ => some .semicolon
  | ':', _ => some .colon
  | '(', _ => some .lparen
  | ')', _ => some .rparen
  | '{', _ => some .lbrace
  | '}', _ => some .rbrace
  | '[', _ => some .lbracket
  | ']', _ => some .rbracket
  | _, _ => none

/-- A match of the pattern table: kind, literal text, and how many characters the match
    has after its first. -/
structure Lexeme where
  kind : Kind
  literal : List Char
  more : Nat
deriving DecidableEq, Repr

/-- The first match at a character that starts no white space or comment.  Blank
    characters that do not separate tokens match nothing. -/
def lexeme? (c : Char) (rest : List Char) : Option Lexeme :=
  if c = '"' then
    match stringBody? rest with
    | some body => some ⟨.string, unescape body, body.length + 1⟩
    | none => some ⟨.illegal, [c], 0⟩
  else if c.isDigit then
    let more := rest.takeWhile Char.isDigit
    some ⟨.int, c :: more, more.length⟩
  else if isWordStart c then
    let more := rest.takeWhile isWordPart
    some ⟨Kind.ofWord (String.ofList (c :: more)), c :: more, more.length⟩
  else
    match symbol? c rest with
    | some kind => some ⟨kind, kind.name.toList, kind.name.length - 1⟩
    | none => if Text.isBlank c then none else some ⟨.illegal, [c], 0⟩

/-- A token at a place of the source. -/
def tokenAt (p : Position) (kind : Kind) (literal : List Char) : Token :=
  ⟨kind, String.ofList literal, p.line, p.column⟩

/-- The tokens of a text that stands at a place of the source.  The next `passed`
    characters belong to what has been read already. -/
def scanFrom : Nat → Position → List Char → List Token
  | _, p, [] => [tokenAt p .eof []]
  | passed + 1, p, c :: rest => scanFrom passed (p.next c) rest
  | 0, p, c :: rest =>
    match triviaLength false (c :: rest) with
    | more + 1 => scanFrom more (p.next c) rest
    | 0 =>
      match lexeme? c rest with
      | some l => tokenAt p l.kind l.literal :: scanFrom l.more (p.next c) rest
      | none => scanFrom 0 (p.next c) rest

end Scanner

/-- The tokens of a source text, the end of the text included. -/
def scan (source : String) : List Token :=
  Scanner.scanFrom 0 Position.start source.toList

/-- The token that marks the end of a source text. -/
def endOfSource (source : String) : Token :=
  Scanner.tokenAt (Position.start.after source.toList) .eof []

/-- The first `count` tokens drawn from a source text; past the end, the end of the text
    is drawn again and again. -/
def draw (source : String) (count : Nat) : List Token :=
  let tokens := scan source
  tokens.take count ++ List.replicate (count - tokens.length) (endOfSource source)

end Monkey
