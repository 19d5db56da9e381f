import BleBeacon.Bytes
import BleBeacon.Text.Hex

/-!
# UUIDs

A UUID is sixteen bytes, kept in the canonical order in which its text spells them. On the air the
same bytes travel in reverse. The text groups the digits 8-4-4-4-12 between hyphens; it is written in
lower case and read in either case.
-/

namespace BleBeacon

structure Uuid where
  octets : List UInt8
  length_octets : octets.length = 16
  deriving DecidableEq, Repr

namespace Uuid

def ofOctets? (octets : List UInt8) : Option Uuid :=
  if sixteen : octets.length = 16 then some ⟨octets, sixteen⟩ else none

/-- The bytes in the order in which they are transmitted. -/
def onAir (uuid : Uuid) : List UInt8 :=
  uuid.octets.reverse

/-- The UUID whose transmitted bytes are given. -/
def ofAir? (bytes : List UInt8) : Option Uuid :=
  ofOctets? bytes.reverse

@[simp] theorem length_onAir (uuid : Uuid) : uuid.onAir.length = 16 := by
  simp [onAir, uuid.length_octets]

@[simp] theorem ofOctets?_octets (uuid : Uuid) : ofOctets? uuid.octets = some uuid := by
  simp [ofOctets?, uuid.length_octets]

/-- The number of bytes in each group of the text. -/
def groupSizes : List Nat := [4, 2, 2, 2, 6]

/-- Consecutive pieces of the given sizes. -/
def pieces : (sizes : List Nat) → List UInt8 → List (List UInt8)
  | [], _ => []
  | size :: sizes, octets => octets.take size :: pieces sizes (octets.drop size)

/-- Lower-case hyphenated text, 36 characters. -/
def text (uuid : Uuid) : List Char :=
  ['-'].intercalate ((pieces groupSizes uuid.octets).map Text.Hex.encode)

/-- Reads hyphenated text: five groups of digits of the right lengths. -/
def read? (text : List Char) : Option Uuid :=
  let groups := text.splitOn '-'
  if groups.map List.length = groupSizes.map (2 * ·) then
    (Text.Hex.decode? groups.flatten).bind ofOctets?
  else
    none

/-- The UUID that an assigned 16-bit number abbreviates: the number takes the third and fourth byte
of the Bluetooth Base UUID. -/
def ofAssigned (number : UInt16) : Uuid where
  octets := [0, 0] ++ Bytes.ofWord 2 number.toUInt64 ++
    [0x00, 0x00, 0x10, 0x00, 0x80, 0x00, 0x00, 0x80, 0x5F, 0x9B, 0x34, 0xFB]
  length_octets := by simp

/-- The Bluetooth Base UUID, `00000000-0000-1000-8000-00805f9b34fb`. -/
def bluetoothBase : Uuid :=
  ofAssigned 0

instance : ToString Uuid :=
  ⟨fun uuid => String.ofList uuid.text⟩

end Uuid

end BleBeacon
