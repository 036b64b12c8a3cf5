/-!
# FNV-1a

The 64-bit FNV-1a hash of a sequence of bytes.
-/

namespace Monkey.Fnv

/-- The hash of no bytes. -/
def offsetBasis : UInt64 := 0xcbf29ce484222325

/-- The factor of a step. -/
def prime : UInt64 := 0x100000001b3

/-- The hash after one more byte. -/
def step (h : UInt64) (b : UInt8) : UInt64 :=
  (h ^^^ b.toUInt64) * prime

/-- The hash after more bytes. -/
def extend (h : UInt64) (bytes : List UInt8) : UInt64 :=
  bytes.foldl step h

/-- The hash of a sequence of bytes. -/
def hash (bytes : List UInt8) : UInt64 :=
  extend offsetBasis bytes

theorem extend_append (h : UInt64) (a b : List UInt8) :
    extend h (a ++ b) = extend (extend h a) b := by
  simp [extend]

end Monkey.Fnv
