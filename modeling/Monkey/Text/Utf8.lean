import Monkey.Text.Hex

/-!
# UTF-8 decoding

Bytes to text, strictly: no overlong form, no surrogate, nothing above U+10FFFF.  A
refusal names the bytes of the longest start of a character that was read and says whether
the first byte, a later byte or the end of the data is at fault.  Line breaks written as
carriage return, or carriage return and line feed, are read as a line feed.
-/

namespace Monkey.Text

/-- Why bytes do not spell a character. -/
inductive DecodeFault where
  | start
  | continuation
  | truncated
deriving DecidableEq, Repr

/-- The wording of a fault. -/
def DecodeFault.reason : DecodeFault → String
  | .start => "invalid start byte"
  | .continuation => "invalid continuation byte"
  | .truncated => "unexpected end of data"

/-- A refusal: the fault, the offset of the character and the bytes read of it. -/
structure DecodeError where
  fault : DecodeFault
  offset : Nat
  bytes : List UInt8
deriving DecidableEq, Repr

/-- The message of a refusal; one byte is shown, several are given by their offsets. -/
def DecodeError.message (e : DecodeError) : String :=
  match e.bytes with
  | [b] =>
    "'utf-8' codec can't decode byte 0x" ++ String.ofList (hexDigits 2 b.toNat) ++
      " in position " ++ toString e.offset ++ ": " ++ e.fault.reason
  | _ =>
    "'utf-8' codec can't decode bytes in position " ++ toString e.offset ++ "-" ++
      toString (e.offset + e.bytes.length - 1) ++ ": " ++ e.fault.reason

/-- A byte that continues a character. -/
def isContinuation (b : UInt8) : Bool :=
  0x80 ≤ b && b ≤ 0xBF

/-- The number of bytes that a character starting with this byte has, if any does. -/
def sequenceLength? (b : UInt8) : Option Nat :=
  if b < 0x80 then some 1
  else if 0xC2 ≤ b && b ≤ 0xDF then some 2
  else if 0xE0 ≤ b && b ≤ 0xEF then some 3
  else if 0xF0 ≤ b && b ≤ 0xF4 then some 4
  else none

/-- Whether the second byte fits the first: it continues the character and the two spell
    neither an overlong form, nor a surrogate, nor a number above U+10FFFF. -/
def fitsSecond (first second : UInt8) : Bool :=
  isContinuation second &&
    (first != 0xE0 || 0xA0 ≤ second) && (first != 0xED || second ≤ 0x9F) &&
    (first != 0xF0 || 0x90 ≤ second) && (first != 0xF4 || second ≤ 0x8F)

/-- The number that continuation bytes add to the bits read so far. -/
def appendBits (bits : Nat) (b : UInt8) : Nat :=
  bits * 64 + b.toNat % 64

/-- The character at the start of the data with the number of bytes it takes after its
    first, or the fault with the bytes read. -/
def decodeChar (first : UInt8) (rest : List UInt8) :
    Except (DecodeFault × List UInt8) (Char × Nat) :=
  match sequenceLength? first with
  | none => .error (.start, [first])
  | some 1 => .ok (Char.ofNat first.toNat, 0)
  | some 2 =>
    match rest with
    | [] => .error (.truncated, [first])
    | b :: _ =>
      if fitsSecond first b then
        .ok (Char.ofNat (appendBits (first.toNat % 32) b), 1)
      else .error (.continuation, [first])
  | some 3 =>
    match rest with
    | [] => .error (.truncated, [first])
    | b :: rest =>
      if fitsSecond first b then
        match rest with
        | [] => .error (.truncated, [first, b])
        | c :: _ =>
          if isContinuation c then
            .ok (Char.ofNat (appendBits (appendBits (first.toNat % 16) b) c), 2)
          else .error (.continuation, [first, b])
      else .error (.continuation, [first])
  | some _ =>
    match rest with
    | [] => .error (.truncated, [first])
    | b :: rest =>
      if fitsSecond first b then
        match rest with
        | [] => .error (.truncated, [first, b])
        | c :: rest =>
          if isContinuation c then
            match rest with
            | [] => .error (.truncated, [first, b, c])
            | d :: _ =>
              if isContinuation d then
                .ok (Char.ofNat
                  (appendBits (appendBits (appendBits (first.toNat % 8) b) c) d), 3)
              else .error (.continuation, [first, b, c])
          else .error (.continuation, [first, b])
      else .error (.continuation, [first])

/-- The characters of the data from an offset on; `skip` bytes belong to the character
    just read.  Newest first in `read`. -/
def decodeFrom (read : List Char) : Nat → Nat → List UInt8 → Except DecodeError (List Char)
  | _, _, [] => .ok read.reverse
  | offset, skip + 1, _ :: rest => decodeFrom read (offset + 1) skip rest
  | offset, 0, b :: rest =>
    match decodeChar b rest with
    | .error (fault, bytes) => .error ⟨fault, offset, bytes⟩
    | .ok (c, more) => decodeFrom (c :: read) (offset + 1) more rest

/-- The text that bytes spell. -/
def decodeUtf8 (bytes : List UInt8) : Except DecodeError String :=
  (decodeFrom [] 0 0 bytes).map String.ofList

/-- Line breaks of every convention as line feeds. -/
def unifyLineBreaks : List Char → List Char
  | '\r' :: '\n' :: rest => '\n' :: unifyLineBreaks rest
  | '\r' :: rest => '\n' :: unifyLineBreaks rest
  | c :: rest => c :: unifyLineBreaks rest
  | [] => []

/-- The text of a file. -/
def decodeFile (bytes : List UInt8) : Except DecodeError String :=
  (decodeUtf8 bytes).map fun s => String.ofList (unifyLineBreaks s.toList)

end Monkey.Text
