import BleBeacon.Layout.ServiceUuid

/-!
# Scan filters

A radio filter is keyed to a manufacturer or a service and compares masked payload bytes from an
offset on. Filter and mask are compared position by position as far as both go; a payload that ends
before a compared position does not match.
-/

namespace BleBeacon

/-- What the radio keys a filter on. -/
inductive FilterKey where
  | manufacturer (id : UInt16)
  | service (uuid : ServiceUuid)
  deriving DecidableEq, Repr

structure ScanFilter where
  key : FilterKey
  filter : List UInt8
  mask : List UInt8
  /-- The payload offset of the first compared byte. -/
  offset : Nat
  deriving DecidableEq, Repr

/-- Whether bytes agree with a filter wherever its mask has bits, and reach as far as it does. -/
def maskedMatch : (pattern : List (UInt8 × UInt8)) → (bytes : List UInt8) → Bool
  | [], _ => true
  | _ :: _, [] => false
  | (filter, mask) :: pattern, byte :: bytes =>
      byte &&& mask == filter && maskedMatch pattern bytes

/-- Whether an AD structure is keyed like this: by the company identifier of Manufacturer Specific
Data, or by the UUID that Service Data starts with. -/
def FilterKey.selects (key : FilterKey) (element : AdStructure) : Bool :=
  match key with
  | manufacturer id => element.companyId == some id
  | service uuid =>
      uuid.carriedBy element.adType && uuid.accepts (element.data.take uuid.width)

namespace ScanFilter

/-- Whether a payload matches, whatever its source. -/
def acceptsPayload (filter : ScanFilter) (payload : List UInt8) : Bool :=
  maskedMatch (filter.filter.zip filter.mask) (payload.drop filter.offset)

/-- Whether some AD structure of an advertisement is keyed right and matches. -/
def accepts (filter : ScanFilter) (advertisement : List UInt8) : Bool :=
  (Advertisement.structures advertisement).any fun element =>
    filter.key.selects element && filter.acceptsPayload element.data

end ScanFilter

end BleBeacon
