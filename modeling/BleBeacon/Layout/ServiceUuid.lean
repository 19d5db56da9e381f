import BleBeacon.Advertisement
import BleBeacon.Uuid

/-!
# Service UUIDs

Service Data starts with the UUID of its service, transmitted least significant byte first, either
as an assigned 16-bit number or in full. The AD type limits which of the two can be there.
-/

namespace BleBeacon

inductive ServiceUuid where
  | assigned (number : UInt16)
  | full (uuid : Uuid)
  deriving DecidableEq, Repr

namespace ServiceUuid

/-- The bytes in the order in which they are transmitted. -/
def onAir : ServiceUuid → List UInt8
  | assigned number => (Bytes.ofWord 2 number.toUInt64).reverse
  | full uuid => uuid.onAir

/-- The number of transmitted bytes. -/
def width : ServiceUuid → Nat
  | assigned _ => 2
  | full _ => 16

/-- Whether Service Data of an AD type can start with this UUID. An assigned number only travels in
the 16-bit type; a full UUID is accepted in both types. -/
def carriedBy : ServiceUuid → UInt8 → Bool
  | assigned _, adType => adType == AdType.serviceData16
  | full _, adType => adType == AdType.serviceData128 || adType == AdType.serviceData16

/-- Whether bytes are this UUID as it is transmitted. -/
def accepts (uuid : ServiceUuid) (bytes : List UInt8) : Bool :=
  bytes == uuid.onAir

/-- The UUID in canonical form. -/
def canonical : ServiceUuid → Uuid
  | assigned number => Uuid.ofAssigned number
  | full uuid => uuid

@[simp] theorem length_onAir (uuid : ServiceUuid) : uuid.onAir.length = uuid.width := by
  cases uuid <;> simp [onAir, width]

@[simp] theorem accepts_iff {uuid : ServiceUuid} {bytes : List UInt8} :
    uuid.accepts bytes = true ↔ bytes = uuid.onAir := by
  simp [accepts]

end ServiceUuid

end BleBeacon
