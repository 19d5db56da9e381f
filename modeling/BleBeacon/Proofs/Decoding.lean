import BleBeacon.Proofs.Layout.Bounds
import BleBeacon.Proofs.Layout.Slices
import BleBeacon.Reading

/-!
# What is decoded

When a layout accepts an AD structure and what it then reads from it, said without the reader: by the
AD type, the bytes at the ranges of the layout, and the numbers that these bytes denote. Decoding
searches for the first structure that is accepted and gives the reading that describes it. The fields
of a layout within bounds fit their words, so neither an acceptance nor a value is lost on the way.
-/

namespace BleBeacon

/-! ## Specification -/

/-- Sixteen bytes are a UUID, one to four are a number, and others stay bytes. -/
inductive Identifier.Classifies : List UInt8 → Identifier → Prop
  | uuid {bytes : List UInt8} (sixteen : bytes.length = 16) :
      Classifies bytes (.uuid ⟨bytes, sixteen⟩)
  | number {bytes : List UInt8} {number : UInt32} :
      1 ≤ bytes.length → bytes.length ≤ 4 → number.toNat = Bytes.value bytes →
      Classifies bytes (.number number)
  | bytes {bytes : List UInt8} :
      bytes.length ≠ 16 → ¬(1 ≤ bytes.length ∧ bytes.length ≤ 4) → Classifies bytes (.bytes bytes)

/-- A pinned power does not depend on the payload, another one is a number in two's complement. -/
inductive PowerField.Gives (payload : List UInt8) : Option PowerField → Option Int32 → Prop
  | absent : Gives payload none none
  | pinned {range : ByteRange} {power : Int32} :
      Gives payload (some ⟨range, some power⟩) (some power)
  | read {range : ByteRange} {bytes : List UInt8} {power : Int32} :
      range.Holds payload bytes →
      power.toInt = (Bytes.value bytes : Int).bmod (256 ^ bytes.length) →
      Gives payload (some ⟨range, none⟩) (some power)

namespace Layout

/-- The source of a structure is the one that the layout reads: Manufacturer Specific Data, or Service
Data with the UUID of the layout in the order in which it is transmitted. -/
inductive Sourced (layout : Layout) (element : AdStructure) : Prop
  | manufacturer : layout.service = none → element.adType = 0xFF → Sourced layout element
  | assigned {number : UInt16} {range : ByteRange} :
      layout.service = some ⟨.assigned number, range⟩ → element.adType = 0x16 →
      range.Holds element.data (ServiceUuid.assigned number).onAir → Sourced layout element
  | full {uuid : Uuid} {range : ByteRange} :
      layout.service = some ⟨.full uuid, range⟩ → element.adType = 0x21 ∨ element.adType = 0x16 →
      range.Holds element.data uuid.octets.reverse → Sourced layout element

/-- When a structure is accepted. The range of a pinned power may lie outside the payload. -/
structure Accepts (layout : Layout) (element : AdStructure) : Prop where
  source : layout.Sourced element
  matcher : ∀ matcher ∈ layout.matcher, matcher.range.Holds element.data matcher.bytes
  identifiers : ∀ range ∈ layout.identifiers, range.last < element.data.length
  dataFields : ∀ range ∈ layout.dataFields, range.last < element.data.length
  power : ∀ power ∈ layout.power, power.pinned = none → power.range.last < element.data.length

/-- What a reading of a payload says. -/
structure Describes (layout : Layout) (payload : List UInt8) (reading : Reading) : Prop where
  beaconType : reading.beaconType = layout.matcher.elim 0 Matcher.expected
  identifiers : List.Forall₂ (fun range identifier => ∃ bytes,
    range.Carries payload bytes ∧ Identifier.Classifies bytes identifier)
    layout.identifiers reading.identifiers
  dataFields : List.Forall₂ (fun range value => ∃ bytes,
    range.Carries payload bytes ∧ value.toNat = Bytes.value bytes)
    layout.dataFields reading.dataFields
  power : PowerField.Gives payload layout.power reading.power

end Layout

/-! ## Parts of a reading -/

theorem Identifier.ofBytes?_eq_some_iff {bytes : List UInt8} {identifier : Identifier}
    (short : bytes.length ≤ maxWidth) :
    ofBytes? bytes = some identifier ↔ Classifies bytes identifier := by
  have reduced : bytes.length ≤ 4 → (Bytes.word bytes).toUInt32.toNat = Bytes.value bytes := by
    intro four
    have small := Nat.lt_of_lt_of_le (Bytes.value_lt bytes)
      (Nat.pow_le_pow_right (by decide) four : 256 ^ bytes.length ≤ 256 ^ 4)
    rw [UInt64.toNat_toUInt32, Bytes.toNat_word (by omega)]
    exact Nat.mod_eq_of_lt small
  constructor
  · intro classified
    unfold ofBytes? at classified
    split at classified
    · cases classified
      exact .uuid _
    · rename_i notUuid
      split at classified
      · rename_i few
        cases classified
        exact .number few.1 few.2 (reduced few.2)
      · rename_i many
        cases classified
        exact .bytes notUuid many
  · intro classified
    cases classified with
    | uuid sixteen => rw [ofBytes?, dif_pos sixteen]
    | @number number some few value =>
        have word : (Bytes.word bytes).toUInt32 = number :=
          UInt32.toNat_inj.1 ((reduced few).trans value.symm)
        rw [ofBytes?, dif_neg (by omega), if_pos ⟨some, few⟩, word]
    | bytes notUuid many => rw [ofBytes?, dif_neg notUuid, if_neg many, if_pos short]

theorem Identifier.exists_classifies {bytes : List UInt8} (short : bytes.length ≤ maxWidth) :
    ∃ identifier, Classifies bytes identifier := by
  by_cases sixteen : bytes.length = 16
  · exact ⟨_, .uuid sixteen⟩
  · by_cases few : 1 ≤ bytes.length ∧ bytes.length ≤ 4
    · exact ⟨_, (ofBytes?_eq_some_iff short).1 (by rw [ofBytes?, dif_neg sixteen, if_pos few])⟩
    · exact ⟨_, .bytes sixteen few⟩

theorem Matcher.accepts_iff {matcher : Matcher}
    (bounds : matcher.range.Within Layout.maxMatcherWidth)
    (fits : matcher.expected.toNat < 256 ^ matcher.range.width) {payload : List UInt8} :
    matcher.accepts payload = true ↔ matcher.range.Holds payload matcher.bytes := by
  rw [← ByteRange.slice_eq_some_iff bounds.ordered, accepts]
  cases sliced : matcher.range.slice payload with
  | none => simp
  | some bytes =>
      have width := ((ByteRange.slice_eq_some_iff bounds.ordered).1 sliced).length
      simp only [beq_iff_eq, Option.some.injEq, Matcher.bytes, ← width]
      exact Bytes.word_eq_iff (width ▸ bounds.width_le) (width ▸ fits)

theorem ServiceUuid.carriedBy_assigned_iff {number : UInt16} {adType : UInt8} :
    (assigned number).carriedBy adType = true ↔ adType = 0x16 := by
  simp [carriedBy, AdType.serviceData16]

theorem ServiceUuid.carriedBy_full_iff {uuid : Uuid} {adType : UInt8} :
    (full uuid).carriedBy adType = true ↔ adType = 0x21 ∨ adType = 0x16 := by
  simp [carriedBy, AdType.serviceData128, AdType.serviceData16]

namespace Layout

variable {layout : Layout}

theorem sourced_iff_of_manufacturer {element : AdStructure} (service : layout.service = none) :
    layout.Sourced element ↔ element.adType = 0xFF := by
  constructor
  · intro sourced
    cases sourced with
    | manufacturer _ type => exact type
    | assigned impossible | full impossible => simp [service] at impossible
  · exact .manufacturer service

theorem sourced_iff_of_service {element : AdStructure} {part : ServiceField}
    (service : layout.service = some part) :
    layout.Sourced element ↔ part.uuid.carriedBy element.adType = true ∧
      part.range.Holds element.data part.uuid.onAir := by
  constructor
  · intro sourced
    cases sourced with
    | manufacturer impossible => simp [service] at impossible
    | assigned same type sent =>
        cases service.symm.trans same
        exact ⟨ServiceUuid.carriedBy_assigned_iff.2 type, sent⟩
    | full same type sent =>
        cases service.symm.trans same
        exact ⟨ServiceUuid.carriedBy_full_iff.2 type, sent⟩
  · obtain ⟨uuid, range⟩ := part
    rintro ⟨type, sent⟩
    cases uuid with
    | assigned number => exact .assigned service (ServiceUuid.carriedBy_assigned_iff.1 type) sent
    | full uuid => exact .full service (ServiceUuid.carriedBy_full_iff.1 type) sent

variable (bounds : layout.WellFormed)
include bounds

theorem selects_iff {element : AdStructure} :
    layout.selects element = true ↔ layout.Sourced element := by
  unfold selects
  cases service : layout.service with
  | none => rw [sourced_iff_of_manufacturer service, beq_iff_eq, AdType.manufacturerData]
  | some part =>
      obtain ⟨within, _, _⟩ := bounds.service part service
      rw [sourced_iff_of_service service, ← ByteRange.slice_eq_some_iff within.ordered,
        Bool.and_eq_true, Option.any_eq_true]
      simp

theorem readType_eq_some_iff {payload : List UInt8} {value : UInt64} :
    layout.readType payload = some value ↔
      (∀ matcher ∈ layout.matcher, matcher.range.Holds payload matcher.bytes) ∧
        value = layout.matcher.elim 0 Matcher.expected := by
  unfold readType
  cases present : layout.matcher with
  | none => simp [eq_comm]
  | some matcher =>
      obtain ⟨within, _, fits⟩ := bounds.matcher matcher present
      simp [Matcher.accepts_iff within fits, eq_comm]

theorem readPower_eq_some_iff {payload : List UInt8} {power : Option Int32} :
    layout.readPower payload = some power ↔ PowerField.Gives payload layout.power power := by
  unfold readPower
  cases present : layout.power with
  | none =>
      constructor
      · rintro ⟨⟩
        exact .absent
      · rintro ⟨⟩
        rfl
  | some field =>
      obtain ⟨range, pinned⟩ := field
      obtain ⟨within, _⟩ := bounds.power _ present
      cases pinned with
      | some value =>
          constructor
          · rintro ⟨⟩
            exact .pinned
          · rintro ⟨⟩
            rfl
      | none =>
          have signed : ∀ {bytes : List UInt8}, range.Holds payload bytes →
              (Bytes.signed bytes).toInt = (Bytes.value bytes : Int).bmod (256 ^ bytes.length) :=
            fun held => Bytes.toInt_signed (held.length ▸ within.width_le)
          simp only [Option.map_eq_some_iff, ByteRange.slice_eq_some_iff within.ordered]
          constructor
          · rintro ⟨bytes, held, rfl⟩
            exact .read held (signed held)
          · intro given
            cases given with
            | @read _ bytes value held number =>
                have equal : Bytes.signed bytes = value :=
                  Int32.toInt_inj.1 ((signed held).trans number.symm)
                exact ⟨bytes, held, congrArg some equal⟩

theorem readPayload_eq_some_iff {payload : List UInt8} {reading : Reading} :
    layout.readPayload payload = some reading ↔
      (∀ matcher ∈ layout.matcher, matcher.range.Holds payload matcher.bytes) ∧
        layout.Describes payload reading := by
  have identifiers : ∀ range ∈ layout.identifiers, ∀ identifier,
      (range.read payload).bind Identifier.ofBytes? = some identifier ↔
        ∃ bytes, range.Carries payload bytes ∧ Identifier.Classifies bytes identifier := by
    intro range member identifier
    have within := bounds.identifiers range member
    rw [Option.bind_eq_some_iff]
    refine exists_congr fun bytes => ?_
    rw [ByteRange.read_eq_some_iff within.ordered]
    refine and_congr_right fun carried => ?_
    exact Identifier.ofBytes?_eq_some_iff (carried.length ▸ within.width_le)
  have dataFields : ∀ range ∈ layout.dataFields, ∀ value,
      (range.read payload).map Bytes.word = some value ↔
        ∃ bytes, range.Carries payload bytes ∧ value.toNat = Bytes.value bytes := by
    intro range member value
    have within := bounds.dataFields range member
    rw [Option.map_eq_some_iff]
    refine exists_congr fun bytes => ?_
    rw [ByteRange.read_eq_some_iff within.ordered]
    refine and_congr_right fun carried => ?_
    rw [← Bytes.toNat_word (carried.length ▸ within.width_le), UInt64.toNat_inj, eq_comm]
  simp only [readPayload, Option.bind_eq_bind, Option.bind_eq_some_iff, Option.pure_def,
    Option.some.injEq, readType_eq_some_iff bounds, mapM_eq_some_iff identifiers,
    mapM_eq_some_iff dataFields, readPower_eq_some_iff bounds]
  constructor
  · rintro ⟨beaconType, ⟨matched, type⟩, ids, idsRead, values, valuesRead, power, powerRead, rfl⟩
    exact ⟨matched, type, idsRead, valuesRead, powerRead⟩
  · rintro ⟨matched, described⟩
    exact ⟨_, ⟨matched, described.beaconType⟩, _, described.identifiers, _, described.dataFields, _,
      described.power, rfl⟩

/-- A reading that describes a payload names bytes of all fields that are read. -/
theorem Describes.accepts {element : AdStructure} {reading : Reading}
    (described : layout.Describes element.data reading) (source : layout.Sourced element)
    (matched : ∀ matcher ∈ layout.matcher, matcher.range.Holds element.data matcher.bytes) :
    layout.Accepts element := by
  constructor
  case source => exact source
  case matcher => exact matched
  case identifiers =>
    intro range member
    obtain ⟨_, bytes, carried, _⟩ := exists_forall₂_iff.1 ⟨_, described.identifiers⟩ range member
    exact carried.last_lt (bounds.identifiers range member).ordered
  case dataFields =>
    intro range member
    obtain ⟨_, bytes, carried, _⟩ := exists_forall₂_iff.1 ⟨_, described.dataFields⟩ range member
    exact carried.last_lt (bounds.dataFields range member).ordered
  case power =>
    intro power present unpinned
    have within := (bounds.power power present).1
    have given := described.power
    rw [present] at given
    generalize reading.power = value at given
    cases given with
    | pinned => simp at unpinned
    | read held => exact held.last_lt within.ordered

theorem readStructure_eq_some_iff {element : AdStructure} {reading : Reading} :
    layout.readStructure element = some reading ↔
      layout.Accepts element ∧ layout.Describes element.data reading := by
  rw [readStructure, Option.ite_none_right_eq_some, selects_iff bounds,
    readPayload_eq_some_iff bounds]
  constructor
  · rintro ⟨source, matched, described⟩
    exact ⟨described.accepts bounds source matched, described⟩
  · rintro ⟨accepted, described⟩
    exact ⟨accepted.source, accepted.matcher, described⟩

/-- An accepted structure has a reading. -/
theorem exists_describes {element : AdStructure} (accepted : layout.Accepts element) :
    ∃ reading, layout.Describes element.data reading := by
  have identifiers : ∃ identifiers, List.Forall₂ (fun range identifier => ∃ bytes,
      range.Carries element.data bytes ∧ Identifier.Classifies bytes identifier)
      layout.identifiers identifiers := by
    refine exists_forall₂_iff.2 fun range member => ?_
    have within := bounds.identifiers range member
    obtain ⟨bytes, carried⟩ :=
      ByteRange.exists_carries within.ordered (accepted.identifiers range member)
    obtain ⟨identifier, classified⟩ :=
      Identifier.exists_classifies (carried.length ▸ within.width_le)
    exact ⟨identifier, bytes, carried, classified⟩
  have dataFields : ∃ values : List UInt64, List.Forall₂ (fun range value => ∃ bytes,
      range.Carries element.data bytes ∧ value.toNat = Bytes.value bytes)
      layout.dataFields values := by
    refine exists_forall₂_iff.2 fun range member => ?_
    have within := bounds.dataFields range member
    obtain ⟨bytes, carried⟩ :=
      ByteRange.exists_carries within.ordered (accepted.dataFields range member)
    exact ⟨Bytes.word bytes, bytes, carried, Bytes.toNat_word (carried.length ▸ within.width_le)⟩
  have power : ∃ power, PowerField.Gives element.data layout.power power := by
    cases present : layout.power with
    | none => exact ⟨none, .absent⟩
    | some field =>
        obtain ⟨range, pinned⟩ := field
        obtain ⟨within, _⟩ := bounds.power _ present
        cases pinned with
        | some value => exact ⟨some value, .pinned⟩
        | none =>
            obtain ⟨bytes, held⟩ : ∃ bytes, range.Holds element.data bytes :=
              ⟨_, ByteRange.holds_slice within.ordered (accepted.power _ present rfl)⟩
            exact ⟨_, .read held (Bytes.toInt_signed (held.length ▸ within.width_le))⟩
  obtain ⟨identifiers, identifiersRead⟩ := identifiers
  obtain ⟨dataFields, dataFieldsRead⟩ := dataFields
  obtain ⟨power, powerRead⟩ := power
  exact ⟨⟨_, identifiers, dataFields, power⟩, rfl, identifiersRead, dataFieldsRead, powerRead⟩

theorem isSome_readStructure_iff {element : AdStructure} :
    (layout.readStructure element).isSome = true ↔ layout.Accepts element := by
  rw [Option.isSome_iff_exists]
  constructor
  · rintro ⟨reading, read⟩
    exact ((readStructure_eq_some_iff bounds).1 read).1
  · intro accepted
    obtain ⟨reading, described⟩ := exists_describes bounds accepted
    exact ⟨reading, (readStructure_eq_some_iff bounds).2 ⟨accepted, described⟩⟩

omit bounds

/-- Decoding gives the reading that describes the first accepted structure. There is a reading exactly
if some structure is accepted. -/
theorem decode_specification {text : List Char} (parsed : parse text = .ok layout)
    (advertisement : List UInt8) :
    (∀ reading, layout.decode advertisement = some reading ↔
      ∃ before element after,
        Advertisement.structures advertisement = before ++ element :: after ∧
        (∀ earlier ∈ before, ¬layout.Accepts earlier) ∧ layout.Accepts element ∧
        layout.Describes element.data reading) ∧
      ((layout.decode advertisement).isSome = true ↔
        ∃ element ∈ Advertisement.structures advertisement, layout.Accepts element) := by
  have bounds := wellFormed_of_parse parsed
  have refused : ∀ element, layout.readStructure element = none ↔ ¬layout.Accepts element := by
    intro element
    rw [← isSome_readStructure_iff bounds, Bool.not_eq_true, Option.isSome_eq_false_iff,
      Option.isNone_iff_eq_none]
  constructor
  · intro reading
    simp only [decode, List.findSome?_eq_some_iff, readStructure_eq_some_iff bounds, refused]
    constructor
    · rintro ⟨before, element, after, whole, ⟨accepted, described⟩, skipped⟩
      exact ⟨before, element, after, whole, skipped, accepted, described⟩
    · rintro ⟨before, element, after, whole, skipped, accepted, described⟩
      exact ⟨before, element, after, whole, ⟨accepted, described⟩, skipped⟩
  · rw [decode, List.findSome?_isSome_iff]
    simp only [isSome_readStructure_iff bounds]

theorem decode_specification_pinned :
    ∃ layout, parse "m:2-2=05,d:3-4l,p:9-9:-41".toList = .ok layout ∧
      ∃ element ∈ Advertisement.structures [2, 1, 6, 6, 0xFF, 0x99, 0x04, 5, 1, 2],
        layout.Accepts element := by
  have parsed : parse "m:2-2=05,d:3-4l,p:9-9:-41".toList =
      .ok { matcher := some ⟨⟨2, 2, false⟩, 5⟩, dataFields := [⟨3, 4, true⟩],
            power := some ⟨⟨9, 9, false⟩, some (-41)⟩ } := by
    rfl
  have walk : Advertisement.structures [2, 1, 6, 6, 0xFF, 0x99, 0x04, 5, 1, 2] =
      [⟨1, [6]⟩, ⟨0xFF, [0x99, 0x04, 5, 1, 2]⟩] := by
    simp [Advertisement.structures, Advertisement.next]
  exact ⟨_, parsed, (decode_specification parsed _).2.1 (by rw [decode, walk]; rfl)⟩

end Layout

end BleBeacon
