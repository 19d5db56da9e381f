import BleBeacon.Proofs.Identifier
import BleBeacon.Proofs.Report.Writing

/-!
# Reading a report off its line

Every member of a report can be read off the line in front of the comma behind it, so the line is
taken apart from the left, member by member, and tells the whole report. The power may be absent,
and then the key of the timestamp stands in its place.
-/

namespace BleBeacon

open Json (Readable)

theorem BeaconFormat.name_injective : Function.Injective name := by
  intro left right same
  cases left <;> cases right <;> first | rfl | exact absurd same (by decide)

theorem Json.readable_text : Readable fun text : String => Json.string text.toList :=
  Json.readable_string.comp fun _ _ => String.toList_inj.1

namespace Report

/-! ## Members -/

theorem readable_format :
    Readable fun format : BeaconFormat => Json.member "type" (Json.string format.name.toList) :=
  (Json.readable_text.comp BeaconFormat.name_injective).member "type"

theorem readable_mac : Readable fun mac : String => Json.member "mac" (Json.string mac.toList) :=
  Json.readable_text.member "mac"

theorem readable_rssi : Readable fun rssi : Int8 => Json.member "rssi" (Json.int rssi.toInt) :=
  (Json.readable_int.comp fun _ _ => Int8.toInt_inj.1).member "rssi"

theorem readable_beaconType :
    Readable fun value : UInt64 => Json.member "beacon_type" (Json.nat value.toNat) :=
  (Json.readable_nat.comp fun _ _ => UInt64.toNat_inj.1).member "beacon_type"

theorem readable_identifiers :
    Readable fun identifiers : List Identifier => Json.member "ids"
      (Json.array (identifiers.map fun identifier => Json.string identifier.text)) :=
  (Json.readable_string.comp Identifier.text_injective).array.member "ids"

theorem readable_dataFields :
    Readable fun dataFields : List UInt64 => Json.member "data"
      (Json.array (dataFields.map fun field => Json.nat field.toNat)) :=
  (Json.readable_nat.comp fun _ _ => UInt64.toNat_inj.1).array.member "data"

theorem readable_power : Readable fun power : Int32 => Json.member "tx" (Json.int power.toInt) :=
  (Json.readable_int.comp fun _ _ => Int32.toInt_inj.1).member "tx"

theorem readable_timestamp :
    Readable fun timestamp : UInt32 => Json.member "ts" (Json.nat timestamp.toNat) :=
  (Json.readable_nat.comp fun _ _ => UInt32.toNat_inj.1).member "ts"

/-! ## The end of the line -/

/-- The end of the line, from the power on. -/
def ending (power : Option Int32) (timestamp : UInt32) : List Char :=
  let rest := Json.member "ts" (Json.nat timestamp.toNat) ++ ['}', '\n']
  match power with
  | none => rest
  | some power => Json.member "tx" (Json.int power.toInt) ++ ',' :: rest

/-- The keys tell whether there is a power. -/
theorem ending_some_ne_none {power : Int32} {timestamp other : UInt32} :
    ending (some power) timestamp ≠ ending none other := by
  intro same
  have keys : ['"', 't', 'x'] = ['"', 't', 's'] := congrArg (List.take 3) same
  exact absurd keys (by decide)

theorem ending_inj {power otherPower : Option Int32} {timestamp other : UInt32}
    (same : ending power timestamp = ending otherPower other) :
    power = otherPower ∧ timestamp = other := by
  cases power with
  | none =>
      cases otherPower with
      | none => exact ⟨rfl, (readable_timestamp.unique (.intro rfl) (.intro rfl) same).1⟩
      | some otherPower => exact absurd same.symm ending_some_ne_none
  | some power =>
      cases otherPower with
      | none => exact absurd same ending_some_ne_none
      | some otherPower =>
          obtain ⟨powers, behind⟩ := readable_power.next same
          obtain ⟨timestamps, _⟩ := readable_timestamp.unique (.intro rfl) (.intro rfl) behind
          exact ⟨congrArg some powers, timestamps⟩

/-! ## The whole line -/

/-- The members that every report has stand in front of commas. -/
theorem line_eq (report : Report) :
    report.line = '{' ::
      (Json.member "type" (Json.string report.format.name.toList) ++ ',' ::
      (Json.member "mac" (Json.string report.mac.toList) ++ ',' ::
      (Json.member "rssi" (Json.int report.rssi.toInt) ++ ',' ::
      (Json.member "beacon_type" (Json.nat report.beaconType.toNat) ++ ',' ::
      (Json.member "ids" (Json.array
        (report.identifiers.map fun identifier => Json.string identifier.text)) ++ ',' ::
      (Json.member "data" (Json.array
        (report.dataFields.map fun field => Json.nat field.toNat)) ++ ',' ::
      ending report.power report.timestamp)))))) := by
  cases power : report.power with
  | none => simp [line, members, Json.object, power, ending]
  | some value => simp [line, members, Json.object, power, ending]

theorem line_injective : Function.Injective line := by
  intro left right same
  rw [line_eq, line_eq] at same
  obtain ⟨formats, same⟩ := readable_format.next (List.cons.inj same).2
  obtain ⟨macs, same⟩ := readable_mac.next same
  obtain ⟨rssis, same⟩ := readable_rssi.next same
  obtain ⟨beaconTypes, same⟩ := readable_beaconType.next same
  obtain ⟨identifiers, same⟩ := readable_identifiers.next same
  obtain ⟨dataFields, same⟩ := readable_dataFields.next same
  obtain ⟨powers, timestamps⟩ := ending_inj same
  cases left
  cases right
  cases formats
  cases macs
  cases rssis
  cases beaconTypes
  cases identifiers
  cases dataFields
  cases powers
  cases timestamps
  rfl

/-- Two reports of which the same bytes are written, each into a buffer of some capacity, agree in
every member. -/
theorem eq_of_written {left right : Report} {capacity otherCapacity : Nat} {bytes : List UInt8}
    (written : (left.write? capacity).map LineBuffer.bytes = some bytes)
    (otherWritten : (right.write? otherCapacity).map LineBuffer.bytes = some bytes) :
    left = right := by
  rw [map_bytes_write?, Option.ite_none_right_eq_some] at written otherWritten
  have bytesEqual : some left.bytes = some right.bytes := written.2.trans otherWritten.2.symm
  exact line_injective (Text.utf8_injective (Option.some.inj bytesEqual))

/-- What a tag is reported as, written out. -/
def ofTag : Report where
  format := .ruuviTag
  mac := "CB:B8:33:4C:88:4F"
  rssi := -60
  beaconType := 10028037
  identifiers := [.bytes [0xCB, 0xB8, 0x33, 0x4C, 0x88, 0x4F]]
  dataFields := []
  power := none
  timestamp := 1000

/-- The sender of the tag. -/
def tagAddress : MacAddress :=
  ⟨[0xCB, 0xB8, 0x33, 0x4C, 0x88, 0x4F], rfl⟩

/-- What is decoded from the tag. -/
def tagSighting : Sighting :=
  ⟨.ruuviTag, ⟨0x990405, [.bytes tagAddress.octets], [], none⟩⟩

theorem eq_of_written_of_sighting : ofTag = tagSighting.report tagAddress (-60) 1000 := by
  have written : (ofTag.write? 200).map LineBuffer.bytes = some ofTag.bytes := by
    rw [map_bytes_write?, if_pos]
    decide +kernel
  have otherWritten : ((tagSighting.report tagAddress (-60) 1000).write? maxLineLength).map
      LineBuffer.bytes = some ofTag.bytes := by
    rw [map_bytes_write?, if_pos]
    · rfl
    · decide +kernel
  exact eq_of_written written otherWritten

end Report

end BleBeacon
