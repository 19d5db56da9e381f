import BleBeacon.Bytes

/-!
# Advertising data

The payload of an advertisement is a sequence of AD structures: a length byte that counts the type
byte and the data, the type byte, and the data. The walk over them ends at the end of the bytes, at a
zero length byte (short payloads are padded with zeros) and at a structure whose length runs past the
end. It inverts `AdStructure.encode` up to where it ends.
-/

namespace BleBeacon

/-- AD type of Service Data with a 16-bit UUID in front. -/
def AdType.serviceData16 : UInt8 := 0x16

/-- AD type of Service Data with a 128-bit UUID in front. -/
def AdType.serviceData128 : UInt8 := 0x21

/-- AD type of Manufacturer Specific Data, with a company identifier in front. -/
def AdType.manufacturerData : UInt8 := 0xFF

structure AdStructure where
  adType : UInt8
  /-- What follows the length and the type byte. -/
  data : List UInt8
  deriving DecidableEq, Repr

namespace AdStructure

/-- The company identifier at the start of Manufacturer Specific Data, low byte first. -/
def companyId (element : AdStructure) : Option UInt16 :=
  if element.adType = AdType.manufacturerData then
    match element.data with
    | low :: high :: _ => some (Bytes.word [high, low]).toUInt16
    | _ => none
  else
    none

/-- The bytes of a structure with at most 254 bytes of data. -/
def encode (element : AdStructure) : List UInt8 :=
  UInt8.ofNat (element.data.length + 1) :: element.adType :: element.data

end AdStructure

namespace Advertisement

/-- One step of the walk: the structure at the front and the bytes behind it. Where the walk ends,
nothing is left to walk. -/
def next : List UInt8 → Option AdStructure × List UInt8
  | length :: adType :: rest =>
      if length = 0 ∨ rest.length + 1 < length.toNat then
        (none, [])
      else
        (some ⟨adType, rest.take (length.toNat - 1)⟩, rest.drop (length.toNat - 1))
  | _ => (none, [])

theorem length_next_lt {bytes : List UInt8} {found : AdStructure}
    (step : (next bytes).1 = some found) : (next bytes).2.length < bytes.length := by
  unfold next at step ⊢
  split
  · split
    · simp_all
    · simp
      omega
  · simp_all

/-- The AD structures of raw advertising data, in order. -/
def structures (bytes : List UInt8) : List AdStructure :=
  match _step : (next bytes).1 with
  | none => []
  | some found => found :: structures (next bytes).2
termination_by bytes.length
decreasing_by exact length_next_lt _step

end Advertisement

end BleBeacon
