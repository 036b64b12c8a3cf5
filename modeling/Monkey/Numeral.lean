import Monkey.Text.Blank
import Monkey.Text.Quoted

/-!
# Numerals

Reading the literal of an integer token.  A numeral is an optional sign and decimal digits
of any script, with single underscores allowed between digits and blanks at both ends.
Numerals of more than `digitLimit` digits are refused, however small their value.
-/

namespace Monkey.Numeral

/-- Why a literal is not read. -/
inductive Refusal where
  | malformed (literal : String)
  | tooLong (digits : Nat)
deriving DecidableEq, Repr

/-- The most digits that a numeral may have. -/
def digitLimit : Nat := 4300

/-- The most characters of a malformed literal that a message shows, quotes included. -/
def shownLimit : Nat := 200

/-- The wording of a refusal. -/
def Refusal.message : Refusal → String
  | malformed literal =>
    "invalid literal for int() with base 10: " ++
      String.ofList ((Text.quotedChars literal.toList).take shownLimit)
  | tooLong digits =>
    "Exceeds the limit (" ++ toString digitLimit ++
      " digits) for integer string conversion: value has " ++ toString digits ++
      " digits; use sys.set_int_max_str_digits() to increase the limit"

/-- The zero digits of the scripts beyond ASCII that have decimal digits; the other nine
    digits follow each zero. -/
def scriptZeros : List Nat :=
  [0x660, 0x6F0, 0x7C0, 0x966, 0x9E6, 0xA66, 0xAE6, 0xB66, 0xBE6, 0xC66, 0xCE6, 0xD66,
   0xDE6, 0xE50, 0xED0, 0xF20, 0x1040, 0x1090, 0x17E0, 0x1810, 0x1946, 0x19D0, 0x1A80,
   0x1A90, 0x1B50, 0x1BB0, 0x1C40, 0x1C50, 0xA620, 0xA8D0, 0xA900, 0xA9D0, 0xA9F0, 0xAA50,
   0xABF0, 0xFF10, 0x104A0, 0x10D30, 0x11066, 0x110F0, 0x11136, 0x111D0, 0x112F0, 0x11450,
   0x114D0, 0x11650, 0x116C0, 0x11730, 0x118E0, 0x11950, 0x11C50, 0x11D50, 0x11DA0,
   0x16A60, 0x16AC0, 0x16B50, 0x1D7CE, 0x1D7D8, 0x1D7E2, 0x1D7EC, 0x1D7F6, 0x1E140,
   0x1E2F0, 0x1E950, 0x1FBF0]

/-- A character as ASCII: digits of any script become ASCII digits, blanks become spaces,
    and a character beyond ASCII that is neither becomes one that no numeral has. -/
def toAscii (c : Char) : Char :=
  if c.toNat < 0x80 then c
  else if Text.isBlank c then ' '
  else
    match scriptZeros.find? fun base => base ≤ c.toNat && c.toNat < base + 10 with
    | some base => Char.ofNat (48 + (c.toNat - base))
    | none => '?'

/-- The blanks around a numeral. -/
def isPadding (c : Char) : Bool :=
  c == ' ' || (9 ≤ c.toNat && c.toNat ≤ 13)

/-- A character of the body of a numeral. -/
def isBodyChar (c : Char) : Bool :=
  c.isDigit || c == '_'

/-- Whether every underscore stands between two digits; the flag says that one may come. -/
def separated : Bool → List Char → Bool
  | allowed, [] => allowed
  | allowed, c :: rest => if c = '_' then allowed && separated false rest else separated true rest

/-- The value of decimal digits, read on from a value. -/
def digitsValue (value : Nat) (digits : List Char) : Nat :=
  digits.foldl (fun n d => 10 * n + (d.toNat - 48)) value

/-- The sign of a numeral and what follows it. -/
def splitSign : List Char → Bool × List Char
  | '-' :: rest => (true, rest)
  | '+' :: rest => (false, rest)
  | cs => (false, cs)

/-- The value of the literal of an integer token. -/
def read (literal : String) : Except Refusal Int :=
  let (negative, cs) := splitSign ((literal.toList.map toAscii).dropWhile isPadding)
  let body := cs.takeWhile isBodyChar
  let digits := body.filter Char.isDigit
  if !separated false body then .error (.malformed literal)
  else if digitLimit < digits.length then .error (.tooLong digits.length)
  else if !(cs.dropWhile isBodyChar).all isPadding then .error (.malformed literal)
  else
    let value : Int := digitsValue 0 digits
    .ok (if negative then -value else value)

end Monkey.Numeral
