import BleBeacon.Identifier
import BleBeacon.Layout.ByteRange
import BleBeacon.Layout.ServiceUuid

/-!
# Layouts

A layout says where one beacon format keeps its parts inside the payload of an AD structure: at most
one matcher, service UUID and power field, and lists of identifiers and data fields. Offsets count
from the first payload byte, so they include the company identifier or the service UUID. With a
service UUID a layout reads Service Data, without one Manufacturer Specific Data. The limits at the
end bound the numbers and the widths of the parts.
-/

namespace BleBeacon

/-- Bytes that identify the beacon format, as the number they denote. -/
structure Matcher where
  range : ByteRange
  expected : UInt64
  deriving DecidableEq, Repr

namespace Matcher

/-- The expected bytes, as many as the range has. -/
def bytes (matcher : Matcher) : List UInt8 :=
  Bytes.ofWord matcher.range.width matcher.expected

/-- Whether a payload has the expected value at the range. A short payload does not. -/
def accepts (matcher : Matcher) (payload : List UInt8) : Bool :=
  match matcher.range.slice payload with
  | some bytes => Bytes.word bytes == matcher.expected
  | none => false

@[simp] theorem length_bytes (matcher : Matcher) : matcher.bytes.length = matcher.range.width := by
  simp [bytes]

end Matcher

/-- A service UUID and the payload bytes at which it is looked for. -/
structure ServiceField where
  uuid : ServiceUuid
  range : ByteRange
  deriving DecidableEq, Repr

/-- Transmit power, read from the payload unless it is pinned to a calibration constant. -/
structure PowerField where
  range : ByteRange
  pinned : Option Int32 := none
  deriving DecidableEq, Repr

structure Layout where
  matcher : Option Matcher := none
  service : Option ServiceField := none
  identifiers : List ByteRange := []
  dataFields : List ByteRange := []
  power : Option PowerField := none
  deriving DecidableEq, Repr

namespace Layout

/-- A layout without fields. -/
def empty : Layout := {}

/-- The highest offset of a field. No payload is longer than 254 bytes, because the length byte of
an AD structure counts the type byte too. -/
def maxOffset : Nat := 253

/-- The most identifiers of a layout. -/
def maxIdentifiers : Nat := 8

/-- The most data fields of a layout. -/
def maxDataFields : Nat := 8

/-- The widest identifier of a layout, in bytes. -/
def maxIdentifierWidth : Nat := Identifier.maxWidth

/-- The widest data field, in bytes: its value is a 64-bit word. -/
def maxDataWidth : Nat := 8

/-- The widest matcher, in bytes: its value is a 64-bit word. -/
def maxMatcherWidth : Nat := 8

/-- The widest power field, in bytes: its value is a 32-bit word. -/
def maxPowerWidth : Nat := 4

end Layout

end BleBeacon
