import Mathlib.Data.Nat.Log

/-!
# Sizes of protocol buffers

How many bytes the fields of a message take in the wire format, for field numbers below 16, whose
tag is one byte.
-/

namespace Lib

/-- The size of a number as a varint, at 7 bits a byte. -/
def varintSize (n : Nat) : Nat := Nat.log 128 n + 1

/-- The size of a `uint32` or `uint64` field. -/
def uintField (n : Nat) : Nat := 1 + varintSize n

/-- The size of a `bool` field. -/
def boolField : Nat := 2

/-- The size of a `string`, `bytes`, message or packed field of so many bytes. -/
def bytesField (size : Nat) : Nat := 1 + varintSize size + size

theorem le_bytesField (size : Nat) : size ≤ bytesField size := Nat.le_add_left _ _

end Lib
