import Monkey.Fnv
import Monkey.Node.Basic
import Monkey.Ordered
import Monkey.Text.Encode

/-!
# Values

What programs compute with.  Values that are told apart by identity carry the number of
the object they are; two values are the same object only if the numbers agree.  Early
returns and errors are values too: evaluation hands them upward.
-/

namespace Monkey

/-- The number of an object. -/
abbrev ObjectId := Nat

/-- The number of a frame of bindings. -/
abbrev FrameId := Nat

/-- The kinds of value that can be keys of a hash. -/
inductive KeyKind where
  | integer
  | boolean
  | string
deriving DecidableEq, Repr

/-- The key under which a hash keeps an entry: the kind of the key value and 64 bits that
    stand for the value. -/
structure HashKey where
  kind : KeyKind
  code : UInt64
deriving DecidableEq, Repr

/-- Why a value has no key. -/
inductive KeyRefusal where
  /-- No value of its type has one. -/
  | unusable (type : String)
  /-- It is a string without an encoding. -/
  | unencodable (error : Text.EncodeError)
deriving DecidableEq, Repr

/-- The message of a refusal. -/
def KeyRefusal.message : KeyRefusal → String
  | unusable type => "unusable as hash key: " ++ type
  | unencodable error => error.message

/-- What a builtin function does with its arguments. -/
inductive BuiltinAction where
  /-- Prints each argument on a line. -/
  | puts
  /-- The length of a string or an array. -/
  | len
  /-- The first element of an array. -/
  | first
  /-- The last element of an array. -/
  | last
  /-- An array without its first element. -/
  | rest
  /-- An array with one more element. -/
  | push
  /-- Refuses with a message of the host. -/
  | refuse (message : String)
  /-- Fails in the host. -/
  | fail (message : String)
  /-- An array of the arguments. -/
  | echo
deriving DecidableEq, Repr

/-- A builtin function. -/
structure Builtin where
  name : String
  action : BuiltinAction
deriving DecidableEq, Repr

/-- A value.  `absent` is what a statement without a value leaves. -/
inductive Value where
  | integer (value : Int64)
  | boolean (value : Bool)
  | string (value : String)
  | null
  | array (id : ObjectId) (elements : List Value)
  | hash (id : ObjectId) (entries : List (HashKey × (Value × Value)))
  | function (id : ObjectId) (parameters : List Name) (body : Node) (frame : FrameId)
  | builtin (b : Builtin)
  | returned (id : ObjectId) (payload : Value)
  | error (id : ObjectId) (message : String)
  | tagged (id : ObjectId) (tag : String)
  | absent

/-- The name of the values of a kind of key. -/
def KeyKind.name : KeyKind → String
  | integer => "INTEGER"
  | boolean => "BOOLEAN"
  | string => "STRING"

namespace Value

/-- The name of a value's type. -/
def typeName : Value → String
  | integer _ => "INTEGER"
  | boolean _ => "BOOLEAN"
  | string _ => "STRING"
  | null => "NULL"
  | array .. => "ARRAY"
  | hash .. => "HASH"
  | function .. => "FUNCTION"
  | builtin _ => "BUILTIN"
  | returned .. => "RETURN_VALUE"
  | error .. => "ERROR"
  | tagged _ tag => tag
  | absent => "NONE"

/-- Whether a value is an error. -/
def isError : Value → Bool
  | error .. => true
  | _ => false

/-- Whether a value is no value. -/
def isAbsent : Value → Bool
  | absent => true
  | _ => false

/-- Whether a condition holds: all values but `null` and `false` count as true. -/
def isTruthy : Value → Bool
  | null | boolean false => false
  | _ => true

/-- The number that is left of a number in 64 bits: what the lowest 64 bits are as a signed
    number. -/
def toInt64 (n : Int) : Int :=
  let low := n % 0x10000000000000000
  if 0x8000000000000000 ≤ low then low - 0x10000000000000000 else low

theorem minValue_le_toInt64 (n : Int) : Int64.minValue.toInt ≤ toInt64 n := by
  rw [show Int64.minValue.toInt = -0x8000000000000000 from rfl, toInt64]
  split <;> omega

theorem toInt64_le_maxValue (n : Int) : toInt64 n ≤ Int64.maxValue.toInt := by
  rw [show Int64.maxValue.toInt = 0x7FFFFFFFFFFFFFFF from rfl, toInt64]
  split <;> omega

/-- The integer that a number wraps to in 64 bits. -/
def ofInt (n : Int) : Value :=
  integer (.ofIntLE (toInt64 n) (minValue_le_toInt64 n) (toInt64_le_maxValue n))

/-- Whether a value can be a key of a hash: integers, booleans and strings can. -/
def isHashable : Value → Bool
  | integer _ | boolean _ | string _ => true
  | _ => false

/-- The key under which a hash keeps a value.  That of a string is taken over its UTF-8
    encoding. -/
def hashKey (surrogate? : Text.Surrogates) : Value → Except KeyRefusal HashKey
  | integer n => .ok ⟨.integer, n.toUInt64⟩
  | boolean b => .ok ⟨.boolean, if b then 1 else 0⟩
  | string s =>
    match Text.encodeUtf8 surrogate? s with
    | .ok bytes => .ok ⟨.string, Fnv.hash bytes⟩
    | .error e => .error (.unencodable e)
  | v => .error (.unusable v.typeName)

/-- Whether two values are one object.  Booleans and `null` are one object each, and so is
    every builtin. -/
def sameObject : Value → Value → Bool
  | boolean a, boolean b => a == b
  | null, null => true
  | array i _, array j _ => i == j
  | hash i _, hash j _ => i == j
  | function i .., function j .. => i == j
  | builtin b, builtin c => b == c
  | returned i _, returned j _ => i == j
  | error i _, error j _ => i == j
  | tagged i _, tagged j _ => i == j
  | _, _ => false

end Value

end Monkey
