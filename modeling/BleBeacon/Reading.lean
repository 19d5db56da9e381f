import BleBeacon.Identifier
import BleBeacon.Layout.Basic

/-!
# Reading an advertisement

A layout is applied to the AD structures of an advertisement in order, and the first structure that
it accepts is read. A structure is accepted if its source fits the layout (AD type and service UUID),
its payload has the matcher's value, and every field to be read lies inside the payload. A pinned
power field is not read, so it may lie outside.
-/

namespace BleBeacon

/-- What a layout reads from a payload that it accepts. -/
structure Reading where
  /-- The value of the matcher, or zero without a matcher. -/
  beaconType : UInt64
  identifiers : List Identifier
  dataFields : List UInt64
  power : Option Int32
  deriving DecidableEq, Repr

namespace Layout

/-- Whether the layout applies to a structure, whatever else its payload holds. -/
def selects (layout : Layout) (element : AdStructure) : Bool :=
  match layout.service with
  | none => element.adType == AdType.manufacturerData
  | some service =>
      service.uuid.carriedBy element.adType &&
        (service.range.slice element.data).any service.uuid.accepts

/-- The beacon type of a payload that has the matcher's value. -/
def readType (layout : Layout) (payload : List UInt8) : Option UInt64 :=
  match layout.matcher with
  | none => some 0
  | some matcher => if matcher.accepts payload then some matcher.expected else none

/-- The power, if the layout has a power field. The outer option tells whether it could be read. -/
def readPower (layout : Layout) (payload : List UInt8) : Option (Option Int32) :=
  match layout.power with
  | none => some none
  | some power =>
      match power.pinned with
      | some pinned => some (some pinned)
      | none => (power.range.slice payload).map fun bytes => some (Bytes.signed bytes)

/-- The fields of a payload, if all of them can be read. -/
def readPayload (layout : Layout) (payload : List UInt8) : Option Reading := do
  let beaconType ← layout.readType payload
  let identifiers ← layout.identifiers.mapM fun range =>
    (range.read payload).bind Identifier.ofBytes?
  let dataFields ← layout.dataFields.mapM fun range => (range.read payload).map Bytes.word
  let power ← layout.readPower payload
  return { beaconType, identifiers, dataFields, power }

/-- What the layout reads from one AD structure, if it accepts it. -/
def readStructure (layout : Layout) (element : AdStructure) : Option Reading :=
  if layout.selects element then layout.readPayload element.data else none

/-- The reading of the first AD structure that the layout accepts. -/
def decode (layout : Layout) (advertisement : List UInt8) : Option Reading :=
  (Advertisement.structures advertisement).findSome? layout.readStructure

end Layout

end BleBeacon
