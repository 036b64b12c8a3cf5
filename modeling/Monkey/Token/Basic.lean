import Monkey.Text.Quoted

/-!
# Tokens

The kinds of token of the language, the keyword table, and tokens with the position of
their first character.
-/

namespace Monkey

/-- What a token is.  A token stream built by hand may also hold kinds that the language
    does not know. -/
inductive Kind where
  | illegal
  | eof
  | ident
  | int
  | string
  | assign
  | plus
  | minus
  | bang
  | asterisk
  | slash
  | lt
  | gt
  | eq
  | notEq
  | comma
  | semicolon
  | colon
  | lparen
  | rparen
  | lbrace
  | rbrace
  | lbracket
  | rbracket
  | function
  | letKeyword
  | ifKeyword
  | elseKeyword
  | trueKeyword
  | falseKeyword
  | returnKeyword
  | other (name : String)
deriving DecidableEq, Repr

namespace Kind

/-- The kinds of the language. -/
def all : List Kind :=
  [illegal, eof, ident, int, string, assign, plus, minus, bang, asterisk, slash, lt, gt, eq,
    notEq, comma, semicolon, colon, lparen, rparen, lbrace, rbrace, lbracket, rbracket,
    function, letKeyword, ifKeyword, elseKeyword, trueKeyword, falseKeyword, returnKeyword]

/-- The name of a kind, as messages and token texts show it. -/
def name : Kind → String
  | illegal => "ILLEGAL"
  | eof => "EOF"
  | ident => "IDENT"
  | int => "INT"
  | string => "STRING"
  | assign => "="
  | plus => "+"
  | minus => "-"
  | bang => "!"
  | asterisk => "*"
  | slash => "/"
  | lt => "<"
  | gt => ">"
  | eq => "=="
  | notEq => "!="
  | comma => ","
  | semicolon => ";"
  | colon => ":"
  | lparen => "("
  | rparen => ")"
  | lbrace => "\x7b"
  | rbrace => "\x7d"
  | lbracket => "["
  | rbracket => "]"
  | function => "FUNCTION"
  | letKeyword => "LET"
  | ifKeyword => "IF"
  | elseKeyword => "ELSE"
  | trueKeyword => "TRUE"
  | falseKeyword => "FALSE"
  | returnKeyword => "RETURN"
  | other name => name

/-- The kind with a given name. -/
def ofName (s : String) : Kind :=
  (all.find? fun k => k.name == s).getD (.other s)

/-- The keywords with their kinds. -/
def keywords : List (String × Kind) :=
  [("fn", function), ("let", letKeyword), ("if", ifKeyword), ("else", elseKeyword),
    ("true", trueKeyword), ("false", falseKeyword), ("return", returnKeyword)]

/-- The kind of a bare word: a keyword's own kind, otherwise an identifier. -/
def ofWord (word : String) : Kind :=
  (keywords.lookup word).getD ident

end Kind

/-- A token: its kind, its literal text, and the line and column of its first character,
    both counted from one. -/
structure Token where
  kind : Kind
  literal : String
  line : Int := 0
  column : Int := 0
deriving DecidableEq, Repr

namespace Token

/-- A token as it is listed: kind, quoted literal and position. -/
def describe (t : Token) : String :=
  t.kind.name ++ "(" ++ Text.quoted t.literal ++ ") at " ++ toString t.line ++ ":" ++
    toString t.column

/-- Two tokens that differ at most in their position. -/
def SameText (t u : Token) : Prop :=
  t.kind = u.kind ∧ t.literal = u.literal

end Token

end Monkey
