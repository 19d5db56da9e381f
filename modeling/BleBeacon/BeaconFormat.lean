/-!
# Beacon formats

The formats that a catalog tells apart, and sets of them as bit masks with one bit per format. Adding
a format to a set or removing it leaves the membership of every other format alone.
-/

namespace BleBeacon

inductive BeaconFormat where
  | altBeacon
  | iBeacon
  | eddystoneUid
  | ruuviTag
  deriving DecidableEq, Repr

namespace BeaconFormat

def all : List BeaconFormat := [altBeacon, iBeacon, eddystoneUid, ruuviTag]

def name : BeaconFormat → String
  | altBeacon => "altbeacon"
  | iBeacon => "ibeacon"
  | eddystoneUid => "eddystone_uid"
  | ruuviTag => "ruuvitag"

def ofName? (name : String) : Option BeaconFormat :=
  all.find? fun format => format.name == name

/-- The bit of a format in a set. -/
def bit : BeaconFormat → UInt8
  | altBeacon => 1
  | iBeacon => 2
  | eddystoneUid => 4
  | ruuviTag => 8

theorem bit_ne_zero (format : BeaconFormat) : format.bit ≠ 0 := by
  cases format <;> decide

/-- Distinct formats have distinct bits. -/
theorem bit_and_bit (format other : BeaconFormat) :
    format.bit &&& other.bit = if other = format then format.bit else 0 := by
  cases format <;> cases other <;> rfl

theorem complement_bit_and_bit (format other : BeaconFormat) :
    ~~~format.bit &&& other.bit = if other = format then 0 else other.bit := by
  cases format <;> cases other <;> rfl

end BeaconFormat

structure FormatSet where
  bits : UInt8
  deriving DecidableEq, Repr

namespace FormatSet

/-- The set of every format. -/
def full : FormatSet := ⟨0xFF⟩

def contains (set : FormatSet) (format : BeaconFormat) : Bool :=
  set.bits &&& format.bit != 0

def insert (set : FormatSet) (format : BeaconFormat) : FormatSet :=
  ⟨set.bits ||| format.bit⟩

def erase (set : FormatSet) (format : BeaconFormat) : FormatSet :=
  ⟨set.bits &&& ~~~format.bit⟩

@[simp] theorem contains_full (format : BeaconFormat) : full.contains format = true := by
  cases format <;> decide

@[simp] theorem contains_insert (set : FormatSet) (format other : BeaconFormat) :
    (set.insert format).contains other = (other == format || set.contains other) := by
  have split : (set.bits ||| format.bit) &&& other.bit =
      set.bits &&& other.bit ||| format.bit &&& other.bit :=
    UInt8.toBitVec_inj.1 BitVec.and_or_distrib_right
  rw [contains, insert, split, format.bit_and_bit other]
  by_cases same : other = format
  · simp [bne, same, UInt8.or_eq_zero_iff, format.bit_ne_zero]
  · simp [same, contains]

@[simp] theorem contains_erase (set : FormatSet) (format other : BeaconFormat) :
    (set.erase format).contains other = (other != format && set.contains other) := by
  rw [contains, erase, UInt8.and_assoc, format.complement_bit_and_bit other]
  by_cases same : other = format
  · simp [same]
  · simp [same, contains]

end FormatSet

end BleBeacon
