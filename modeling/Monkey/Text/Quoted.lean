import Monkey.Text.Hex
import Monkey.Text.Printable

/-!
# Quoted text

The quoted form in which token texts and tree dumps show a string.  Single quotes surround
it unless it holds a single quote and no double quote.  The backslash and the quote in use
are escaped, hidden characters are written as escapes or by number, all else stands as is.
-/

namespace Monkey.Text

/-- A character written by number, in the shortest of the three forms that holds it. -/
def numericEscape (c : Char) : List Char :=
  let n := c.toNat
  if n < 0x100 then '\\' :: 'x' :: hexDigits 2 n
  else if n < 0x10000 then '\\' :: 'u' :: hexDigits 4 n
  else '\\' :: 'U' :: hexDigits 8 n

/-- One character of a text quoted with `mark`. -/
def quotedChar (mark c : Char) : List Char :=
  if c = mark ∨ c = '\\' then ['\\', c]
  else if c = '\n' then ['\\', 'n']
  else if c = '\r' then ['\\', 'r']
  else if c = '\t' then ['\\', 't']
  else if isPrintable c then [c]
  else numericEscape c

/-- The quotation mark for a text. -/
def quoteMark (cs : List Char) : Char :=
  if cs.contains '\'' && !cs.contains '"' then '"' else '\''

/-- The quoted form of a text, as characters. -/
def quotedChars (cs : List Char) : List Char :=
  let mark := quoteMark cs
  mark :: (cs.flatMap (quotedChar mark) ++ [mark])

/-- The quoted form of a text. -/
def quoted (s : String) : String :=
  String.ofList (quotedChars s.toList)

end Monkey.Text
