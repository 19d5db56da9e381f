import BleBeacon.Bytes
import BleBeacon.Text.Decimal

/-!
# Byte ranges

A field occupies an inclusive range of payload offsets. `slice` gives the bytes of the range as they
were transmitted, or nothing if the payload is too short; `read` gives them most significant first.
-/

namespace BleBeacon

structure ByteRange where
  first : Nat
  last : Nat
  /-- The bytes are transmitted least significant first. -/
  littleEndian : Bool := false
  deriving DecidableEq, Repr

namespace ByteRange

/-- The number of bytes in a range whose last offset is not before its first. -/
def width (range : ByteRange) : Nat :=
  range.last - range.first + 1

/-- The bytes of a payload at a range. A range that ends right before its start is empty and lies in
every payload that reaches its start. -/
def slice (range : ByteRange) (payload : List UInt8) : Option (List UInt8) :=
  if range.first ≤ range.last + 1 ∧ range.last < payload.length then
    some ((payload.drop range.first).take (range.last + 1 - range.first))
  else
    none

/-- The bytes of a payload at a range, most significant first. -/
def read (range : ByteRange) (payload : List UInt8) : Option (List UInt8) :=
  (range.slice payload).map fun bytes => if range.littleEndian then bytes.reverse else bytes

/-- `first-last`, with the suffix `l` for little-endian bytes. -/
def text (range : ByteRange) : List Char :=
  Text.Decimal.ofNat range.first ++ '-' :: Text.Decimal.ofNat range.last ++
    (if range.littleEndian then ['l'] else [])

theorem length_of_slice {range : ByteRange} (ordered : range.first ≤ range.last)
    {payload bytes : List UInt8} (sliced : range.slice payload = some bytes) :
    bytes.length = range.width := by
  simp only [slice, Option.ite_none_right_eq_some, Option.some.injEq] at sliced
  obtain ⟨⟨_, inside⟩, rfl⟩ := sliced
  simp [width]
  omega

end ByteRange

end BleBeacon
