import BleBeacon.Text.Hex

/-!
# Hardware addresses

A hardware address is six bytes, written as pairs of upper-case digits between colons.
-/

namespace BleBeacon

structure MacAddress where
  octets : List UInt8
  length_octets : octets.length = 6
  deriving DecidableEq, Repr

namespace MacAddress

def ofOctets? (octets : List UInt8) : Option MacAddress :=
  if six : octets.length = 6 then some ⟨octets, six⟩ else none

/-- For instance `AA:BB:CC:DD:EE:FF`. -/
def text (address : MacAddress) : List Char :=
  [':'].intercalate (address.octets.map Text.Hex.upperPair)

instance : ToString MacAddress :=
  ⟨fun address => String.ofList address.text⟩

end MacAddress

end BleBeacon
