import BleBeacon.Uuid
import BleBeacon.Text.Decimal

/-!
# Identifiers

An identifier is a byte string classified by its width: sixteen bytes are a UUID, one to four bytes
are a number, and anything else stays a byte string. Each class has its own text.
-/

namespace BleBeacon

inductive Identifier where
  | uuid (uuid : Uuid)
  | number (number : UInt32)
  | bytes (bytes : List UInt8)
  deriving DecidableEq, Repr

namespace Identifier

/-- The widest identifier, in bytes. -/
def maxWidth : Nat := 32

/-- The longest text of an identifier: two digits per byte behind `0x`. -/
def maxTextLength : Nat := 2 + 2 * maxWidth

/-- Classifies big-endian bytes, at most `maxWidth` of them. -/
def ofBytes? (bytes : List UInt8) : Option Identifier :=
  if sixteen : bytes.length = 16 then
    some (.uuid ⟨bytes, sixteen⟩)
  else if 1 ≤ bytes.length ∧ bytes.length ≤ 4 then
    some (.number (Bytes.word bytes).toUInt32)
  else if bytes.length ≤ maxWidth then
    some (.bytes bytes)
  else
    none

/-- Hyphenated for a UUID, decimal for a number, hexadecimal behind `0x` for other bytes. -/
def text : Identifier → List Char
  | uuid id => id.text
  | number id => Text.Decimal.ofNat id.toNat
  | bytes id => '0' :: 'x' :: Text.Hex.encode id

instance : ToString Identifier :=
  ⟨fun identifier => String.ofList identifier.text⟩

end Identifier

end BleBeacon
