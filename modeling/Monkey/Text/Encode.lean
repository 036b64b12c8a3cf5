import Monkey.Text.Hex

/-!
# UTF-8 encoding

Text to bytes.  A text that comes from outside may hold surrogates that are not part of a pair.
They are code points but no characters; which characters of a text stand for them is given from
outside.  A text with one of them in it has no encoding.  The refusal names the first of them and
those that follow it at once.
-/

namespace Monkey.Text

/-- The unpaired surrogate that a character stands for, if it stands for one. -/
abbrev Surrogates := Char → Option UInt16

/-- A refusal: the offset of the first unpaired surrogate and the surrogates that stand there in a
    row. -/
structure EncodeError where
  offset : Nat
  surrogates : List UInt16
deriving DecidableEq, Repr

/-- The message of a refusal; one surrogate is shown, several are given by their offsets. -/
def EncodeError.message (e : EncodeError) : String :=
  match e.surrogates with
  | [u] =>
    "'utf-8' codec can't encode character '\\u" ++ String.ofList (hexDigits 4 u.toNat) ++
      "' in position " ++ toString e.offset ++ ": surrogates not allowed"
  | _ =>
    "'utf-8' codec can't encode characters in position " ++ toString e.offset ++ "-" ++
      toString (e.offset + e.surrogates.length - 1) ++ ": surrogates not allowed"

/-- The unpaired surrogates in front of everything else. -/
def leadingSurrogates (surrogate? : Surrogates) : List Char → List UInt16
  | [] => []
  | c :: rest =>
    match surrogate? c with
    | some u => u :: leadingSurrogates surrogate? rest
    | none => []

/-- The refusal to encode characters from an offset on, if there is an unpaired surrogate. -/
def encodeError? (surrogate? : Surrogates) (offset : Nat) : List Char → Option EncodeError
  | [] => none
  | c :: rest =>
    match surrogate? c with
    | some u => some ⟨offset, u :: leadingSurrogates surrogate? rest⟩
    | none => encodeError? surrogate? (offset + 1) rest

/-- The bytes that spell a text. -/
def encodeUtf8 (surrogate? : Surrogates) (s : String) : Except EncodeError (List UInt8) :=
  match encodeError? surrogate? 0 s.toList with
  | some e => .error e
  | none => .ok s.toUTF8.data.toList

/-- Characters without unpaired surrogates among them are not refused, and only those are not. -/
theorem encodeError?_eq_none_iff {surrogate? : Surrogates} {offset : Nat} {cs : List Char} :
    encodeError? surrogate? offset cs = none ↔ ∀ c ∈ cs, surrogate? c = none := by
  induction cs generalizing offset with
  | nil => simp [encodeError?]
  | cons c cs ih =>
    rw [encodeError?, List.forall_mem_cons]
    cases surrogate? c with
    | none => simpa using ih
    | some u => simp

end Monkey.Text
