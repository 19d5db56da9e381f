import BleBeacon.Proofs.Catalog.BuiltIn
import BleBeacon.Proofs.Identifier
import BleBeacon.Proofs.Report.Writing

/-!
# How long a report can get

The layout that a sighting comes from bounds the line that reports it: the layout says how many
identifiers of which widths and how many data fields there are, and every other member has a value
of bounded length. An address never needs an escape. The lines of the built-in layouts all fit a
message.
-/

namespace BleBeacon

/-! ## Lengths of JSON text -/

namespace Json

/-- The characters that take one byte in a string. -/
def isCompact (char : Char) : Bool :=
  isVerbatim char && char.utf8Size == 1

theorem compact_of_plain {text : List Char} (plain : ∀ char ∈ text, Text.isPlain char = true) :
    ∀ char ∈ text, isCompact char = true := by
  have table : ∀ code : Fin 128, Text.isPlain (Char.ofNat code) = true →
      isCompact (Char.ofNat code) = true := by
    decide
  intro char member
  have allowed := plain char member
  have ascii := Text.ascii_of_isPlain allowed
  rw [← Char.ofNat_toNat char] at allowed ⊢
  exact table ⟨char.toNat, ascii⟩ allowed

theorem byteLength_of_compact {text : List Char}
    (compact : ∀ char ∈ text, isCompact char = true) : Text.byteLength text = text.length := by
  induction text with
  | nil => rfl
  | cons char rest ih =>
      obtain ⟨first, others⟩ := List.forall_mem_cons.1 compact
      simp only [isCompact, Bool.and_eq_true, beq_iff_eq] at first
      rw [Text.byteLength_cons, first.2, ih others, List.length_cons, Nat.add_comm]

/-- A string of compact characters has its two quotes besides them. -/
theorem byteLength_string {text : List Char}
    (compact : ∀ char ∈ text, isCompact char = true) :
    Text.byteLength (string text) = text.length + 2 := by
  have body : text.flatMap escape = text := by
    rw [List.flatMap_def, List.map_congr_left (g := fun char => [char]), ← List.flatMap_def,
      List.flatMap_singleton']
    intro char member
    have allowed := compact char member
    simp only [isCompact, Bool.and_eq_true] at allowed
    exact escape_of_isVerbatim allowed.1
  have quote : '"'.utf8Size = 1 := rfl
  rw [string, body, Text.byteLength_append, Text.byteLength_cons, byteLength_of_compact compact,
    Text.byteLength_cons, Text.byteLength_nil, quote]
  omega

theorem byteLength_nat_le {number limit : Nat} (small : number < 10 ^ limit) (some : 0 < limit) :
    Text.byteLength (nat number) ≤ limit := by
  have compact := compact_of_plain (Text.Decimal.spells_ofNat number).plain
  rw [nat, byteLength_of_compact compact, Text.Decimal.ofNat,
    Nat.length_toDigits_le_iff (by decide) some]
  exact small

/-- A sign takes one more byte. -/
theorem byteLength_int_le {number : Int} {limit : Nat} (small : number.natAbs < 10 ^ limit)
    (some : 0 < limit) : Text.byteLength (int number) ≤ limit + 1 := by
  cases number with
  | ofNat natural => exact Nat.le_succ_of_le (byteLength_nat_le small some)
  | negSucc natural =>
      have digits : Text.byteLength (nat (natural + 1)) ≤ limit := byteLength_nat_le small some
      have sign : '-'.utf8Size = 1 := rfl
      rw [int, Text.Decimal.ofInt, Text.byteLength_cons, sign, Nat.add_comm]
      exact Nat.succ_le_succ digits

theorem byteLength_uint64_le (word : UInt64) : Text.byteLength (nat word.toNat) ≤ 20 :=
  byteLength_nat_le (Nat.lt_trans word.toNat_lt (by decide)) (by decide)

theorem byteLength_uint32_le (word : UInt32) : Text.byteLength (nat word.toNat) ≤ 10 :=
  byteLength_nat_le (Nat.lt_trans word.toNat_lt (by decide)) (by decide)

theorem byteLength_int8_le (word : Int8) : Text.byteLength (int word.toInt) ≤ 4 := by
  have low := word.le_toInt
  have high := word.toInt_lt
  exact byteLength_int_le (show word.toInt.natAbs < 10 ^ 3 by omega) (by decide)

theorem byteLength_int32_le (word : Int32) : Text.byteLength (int word.toInt) ≤ 11 := by
  have low := word.le_toInt
  have high := word.toInt_lt
  exact byteLength_int_le (show word.toInt.natAbs < 10 ^ 10 by omega) (by decide)

theorem byteLength_member (key : String) (value : List Char) :
    Text.byteLength (member key value) =
      Text.byteLength (string key.toList) + 1 + Text.byteLength value := by
  have colon : ':'.utf8Size = 1 := rfl
  rw [member, Text.byteLength_append, Text.byteLength_cons, colon, Nat.add_assoc]

/-- Each item takes a comma at most besides its own text. -/
theorem byteLength_intercalate_le (items : List (List Char)) :
    Text.byteLength ([','].intercalate items) ≤
      (items.map fun item => Text.byteLength item + 1).sum := by
  have comma : ','.utf8Size = 1 := rfl
  have following : ∀ others : List (List Char),
      Text.byteLength (others.flatMap fun item => ',' :: item) =
        (others.map fun item => Text.byteLength item + 1).sum := by
    intro others
    induction others with
    | nil => rfl
    | cons item others ih =>
        rw [List.flatMap_cons, Text.byteLength_append, ih, Text.byteLength_cons, comma,
          List.map_cons, List.sum_cons, Nat.add_comm 1]
  cases items with
  | nil => exact Nat.zero_le _
  | cons item items =>
      rw [intercalate_cons, Text.byteLength_append, following, List.map_cons, List.sum_cons]
      omega

/-- Brackets of any kind take two more bytes. -/
theorem byteLength_enclosed_le {opening closing : Char} (opened : opening.utf8Size = 1)
    (closed : closing.utf8Size = 1) (items : List (List Char)) :
    Text.byteLength (opening :: [','].intercalate items ++ [closing]) ≤
      2 + (items.map fun item => Text.byteLength item + 1).sum := by
  have inside := byteLength_intercalate_le items
  rw [Text.byteLength_append, Text.byteLength_cons, Text.byteLength_cons, Text.byteLength_nil,
    opened, closed]
  omega

theorem byteLength_array_le (items : List (List Char)) :
    Text.byteLength (array items) ≤ 2 + (items.map fun item => Text.byteLength item + 1).sum :=
  byteLength_enclosed_le rfl rfl items

theorem byteLength_object_le (members : List (List Char)) :
    Text.byteLength (object members) ≤
      2 + (members.map fun member => Text.byteLength member + 1).sum :=
  byteLength_enclosed_le rfl rfl members

end Json

/-! ## Addresses and formats -/

namespace MacAddress

theorem length_text (address : MacAddress) : address.text.length = 17 := by
  obtain ⟨octets, six⟩ := address
  match octets, six with
  | [_, _, _, _, _, _], rfl => rfl

/-- Digits and colons need no escapes. -/
theorem compact_text (address : MacAddress) :
    ∀ char ∈ address.text, Json.isCompact char = true := by
  have table : ∀ digit : Fin 16, Json.isCompact (Nat.digitChar digit).toUpper = true := by decide
  have digits : ∀ byte : UInt8, ∀ char ∈ Text.Hex.upperPair byte, Json.isCompact char = true := by
    intro byte
    have bound := byte.toNat_lt
    simp only [Text.Hex.upperPair, Text.Hex.pair, List.map_cons, List.map_nil,
      List.forall_mem_cons]
    exact ⟨table ⟨byte.toNat / 16, by omega⟩, table ⟨byte.toNat % 16, by omega⟩,
      List.forall_mem_nil _⟩
  intro char member
  obtain ⟨octets, six⟩ := address
  cases octets with
  | nil => cases six
  | cons first rest =>
      rw [text, List.map_cons, Json.intercalate_cons] at member
      rcases List.mem_append.1 member with member | member
      · exact digits first char member
      · obtain ⟨pair, held, inside⟩ := List.mem_flatMap.1 member
        obtain ⟨octet, _, rfl⟩ := List.mem_map.1 held
        rcases List.mem_cons.1 inside with rfl | inside
        · decide
        · exact digits octet char inside

end MacAddress

theorem BeaconFormat.byteLength_name_le (format : BeaconFormat) :
    Text.byteLength (Json.string format.name.toList) ≤ 15 := by
  cases format <;> decide

/-! ## Lines -/

namespace Layout

/-- What a member takes at most with its key, a colon and a comma, if its value is bounded. -/
def memberLimit (key : String) (value : Nat) : Nat :=
  Text.byteLength (Json.string key.toList) + 1 + value + 1

/-- What the identifiers of a layout take at most, each with two quotes and a comma. -/
def identifiersLimit (layout : Layout) : Nat :=
  2 + (layout.identifiers.map fun range => Identifier.textLimit range.width + 3).sum

/-- What the data fields take at most, each with a comma: 64 bits have up to 20 digits. -/
def dataFieldsLimit (layout : Layout) : Nat :=
  2 + 21 * layout.dataFields.length

/-- What a line takes at most, in bytes, if the layout was read: the members, two braces and the
newline. -/
def lineLimit (layout : Layout) : Nat :=
  3 + (memberLimit "type" 15 + memberLimit "mac" 19 + memberLimit "rssi" 4 +
    memberLimit "beacon_type" 20 + memberLimit "ids" layout.identifiersLimit +
    memberLimit "data" layout.dataFieldsLimit + memberLimit "tx" 11 + memberLimit "ts" 10)

theorem byteLength_member_le (key : String) {value : List Char} {limit : Nat}
    (bounded : Text.byteLength value ≤ limit) :
    Text.byteLength (Json.member key value) + 1 ≤ memberLimit key limit := by
  rw [Json.byteLength_member, memberLimit]
  omega

/-- Without a power the member is not there. -/
theorem sum_power_le (power : Option Int32) :
    ((power.toList.map fun power => Json.member "tx" (Json.int power.toInt)).map fun member =>
      Text.byteLength member + 1).sum ≤ memberLimit "tx" 11 := by
  cases power with
  | none => exact Nat.zero_le _
  | some power => exact byteLength_member_le "tx" (Json.byteLength_int32_le power)

variable {layout : Layout} {payload : List UInt8} {reading : Reading}
  (described : layout.Describes payload reading)
include described

theorem Describes.byteLength_identifiers_le :
    Text.byteLength (Json.array (reading.identifiers.map fun identifier =>
      Json.string identifier.text)) ≤ layout.identifiersLimit := by
  have each : List.Forall₂ (· ≤ ·)
      (reading.identifiers.map fun identifier =>
        Text.byteLength (Json.string identifier.text) + 1)
      (layout.identifiers.map fun range => Identifier.textLimit range.width + 3) := by
    rw [List.forall₂_map_left_iff, List.forall₂_map_right_iff]
    apply described.identifiers.flip.imp
    rintro identifier range ⟨bytes, carried, classified⟩
    have short := classified.length_text_le
    rw [carried.length] at short
    rw [Json.byteLength_string (Json.compact_of_plain identifier.plain_text)]
    omega
  have total := Json.byteLength_array_le
    (reading.identifiers.map fun identifier => Json.string identifier.text)
  rw [List.map_map] at total
  exact Nat.le_trans total (Nat.add_le_add_left each.sum_le_sum 2)

theorem Describes.byteLength_dataFields_le :
    Text.byteLength (Json.array (reading.dataFields.map fun field => Json.nat field.toNat)) ≤
      layout.dataFieldsLimit := by
  have each : ∀ size ∈ reading.dataFields.map fun field =>
      Text.byteLength (Json.nat field.toNat) + 1, size ≤ 21 := by
    intro size member
    obtain ⟨field, _, rfl⟩ := List.mem_map.1 member
    exact Nat.succ_le_succ (Json.byteLength_uint64_le field)
  have total := Json.byteLength_array_le
    (reading.dataFields.map fun field => Json.nat field.toNat)
  have sum := List.sum_le_card_nsmul _ 21 each
  rw [List.map_map] at total
  rw [List.length_map, ← described.dataFields.length_eq, Nat.nsmul_eq_mul, Nat.mul_comm] at sum
  exact Nat.le_trans total (Nat.add_le_add_left sum 2)

/-- A reading has a line within the limit of the layout that it describes, whoever sent it. -/
theorem Describes.length_bytes_le (format : BeaconFormat) (sender : MacAddress) (rssi : Int8)
    (timestamp : UInt32) :
    ((Sighting.mk format reading).report sender rssi timestamp).bytes.length ≤
      layout.lineLimit := by
  have address : Text.byteLength (Json.string (toString sender).toList) ≤ 19 := by
    have text : (toString sender).toList = sender.text := String.toList_ofList
    rw [text, Json.byteLength_string sender.compact_text, sender.length_text]
  have type := byteLength_member_le "type" format.byteLength_name_le
  have mac := byteLength_member_le "mac" address
  have strength := byteLength_member_le "rssi" (Json.byteLength_int8_le rssi)
  have beaconType :=
    byteLength_member_le "beacon_type" (Json.byteLength_uint64_le reading.beaconType)
  have ids := byteLength_member_le "ids" described.byteLength_identifiers_le
  have data := byteLength_member_le "data" described.byteLength_dataFields_le
  have power := sum_power_le reading.power
  have uptime := byteLength_member_le "ts" (Json.byteLength_uint32_le timestamp)
  have object := Json.byteLength_object_le
    ((Sighting.mk format reading).report sender rssi timestamp).members
  simp only [Report.members, Sighting.report, List.map_append, List.sum_append, List.map_cons,
    List.map_nil, List.sum_cons, List.sum_nil] at object
  have newline : Text.byteLength ['\n'] = 1 := rfl
  rw [Report.bytes, Text.length_utf8, Report.line, Text.byteLength_append, newline, lineLimit]
  simp only [Report.members, Sighting.report]
  omega

end Layout

/-! ## Sightings -/

namespace Catalog

section

variable {definitions : List Definition} {catalog : Catalog}
  (built : ofDefinitions definitions = .ok catalog)
include built

/-- A sighting has the reading of one of the layouts. -/
theorem exists_describes_of_sighting? {settings : Settings} {advertisement : List UInt8}
    {rssi : Int8} {sighting : Sighting}
    (seen : catalog.sighting? settings advertisement rssi = some sighting) :
    ∃ entry ∈ catalog.entries, ∃ payload, entry.layout.Describes payload sighting.reading := by
  rw [sighting?] at seen
  split at seen
  · cases seen
  · obtain ⟨entry, member, found⟩ := List.exists_of_findSome?_eq_some seen
    rw [Option.ite_none_right_eq_some, Entry.decode, Option.map_eq_some_iff] at found
    obtain ⟨_, reading, decoded, rfl⟩ := found
    obtain ⟨element, _, read⟩ := List.exists_of_findSome?_eq_some decoded
    have bounds := wellFormed_of_mem built member
    exact ⟨entry, member, element.data, ((Layout.readStructure_eq_some_iff bounds).1 read).2⟩

/-- The layouts of a catalog bound all lines that report its sightings. -/
theorem length_bytes_le_of_sighting? {limit : Nat}
    (limits : ∀ entry ∈ catalog.entries, entry.layout.lineLimit ≤ limit)
    {settings : Settings} {advertisement : List UInt8} {rssi : Int8} {sighting : Sighting}
    (seen : catalog.sighting? settings advertisement rssi = some sighting)
    (sender : MacAddress) (timestamp : UInt32) :
    (sighting.report sender rssi timestamp).bytes.length ≤ limit := by
  obtain ⟨entry, member, payload, described⟩ := exists_describes_of_sighting? built seen
  exact Nat.le_trans (described.length_bytes_le sighting.format sender rssi timestamp)
    (limits entry member)

end

theorem lineLimit_builtInEntries :
    ∀ entry ∈ builtInEntries, entry.layout.lineLimit ≤ Report.maxLineLength := by
  decide

/-- Every sighting of the built-in catalog is reported: a message buffer takes its line. -/
theorem builtIn_sightings_fit :
    ∃ catalog, builtIn = .ok catalog ∧
      ∀ (settings : Settings) (advertisement : List UInt8) (rssi : Int8) (sighting : Sighting),
        catalog.sighting? settings advertisement rssi = some sighting →
        ∀ (sender : MacAddress) (timestamp : UInt32),
          (sighting.report sender rssi timestamp).bytes.length ≤ 512 ∧
          ((sighting.report sender rssi timestamp).write? Report.maxLineLength).map
            LineBuffer.bytes = some (sighting.report sender rssi timestamp).bytes ∧
          ∀ serializer, Report.Serializes serializer →
            (sighting.report sender rssi timestamp).message? serializer =
              some (sighting.report sender rssi timestamp).bytes := by
  refine ⟨_, builtIn_eq_ok, ?_⟩
  intro settings advertisement rssi sighting seen sender timestamp
  have fits := length_bytes_le_of_sighting? builtIn_eq_ok lineLimit_builtInEntries seen sender
    timestamp
  refine ⟨fits, ?_, fun serializer serializes => ?_⟩
  · rw [Report.map_bytes_write?, if_pos fits]
  · rw [Report.message?_eq serializes, if_pos fits]

/-- An AltBeacon structure with the longest texts of its fields. -/
def widestFrame : AdStructure :=
  ⟨AdType.manufacturerData, [0x18, 0x01, 0xBE, 0xAC] ++ List.replicate 20 0xFF ++ [0x80, 0xFF]⟩

theorem sighting?_widestFrame :
    (Catalog.mk builtInEntries).sighting? {} widestFrame.encode (-100) =
      some ⟨.altBeacon, ⟨0xBEAC, [.uuid ⟨List.replicate 16 0xFF, rfl⟩, .number 65535,
        .number 65535], [255], some (-128)⟩⟩ := by
  have walked := @Advertisement.structures_encode widestFrame (by decide)
  simp only [sighting?, Entry.decode, Layout.decode, walked]
  decide

theorem builtIn_sightings_fit_widestFrame :
    ∃ catalog sighting, builtIn = .ok catalog ∧
      catalog.sighting? {} widestFrame.encode (-100) = some sighting ∧
      ((sighting.report ⟨List.replicate 6 0xFF, rfl⟩ (-100) 4294967295).write?
        Report.maxLineLength).isSome ∧
      ((sighting.report ⟨List.replicate 6 0xFF, rfl⟩ (-100) 4294967295).message?
        Report.bytewise).isSome := by
  obtain ⟨catalog, built, fits⟩ := builtIn_sightings_fit
  cases built.symm.trans builtIn_eq_ok
  obtain ⟨_, written, message⟩ := fits {} widestFrame.encode (-100) _ sighting?_widestFrame
    ⟨List.replicate 6 0xFF, rfl⟩ 4294967295
  refine ⟨_, _, builtIn_eq_ok, sighting?_widestFrame, ?_, ?_⟩
  · rw [← Option.isSome_map, written]
    rfl
  · rw [message _ Report.serializes_bytewise]
    rfl

end Catalog

end BleBeacon
