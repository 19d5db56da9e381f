import BleBeacon.Proofs.Advertisement.Encoding
import BleBeacon.Proofs.Filter.Coverage

/-!
# Learnt identifiers

The bytes of an identifier that was decoded can serve as a known prefix afterwards. The filters then
still let the same beacon through if they compare the bytes where the identifier is read and in the
same order: at the first identifier of a service layout, most significant byte first, and for an
iBeacon if its first identifier starts right behind the type code. An iBeacon with another identifier
first has its prefixes compared behind the type code all the same.
-/

namespace BleBeacon

/-- The bytes of an identifier that was not classified as a number. -/
def Identifier.octets? : Identifier → Option (List UInt8)
  | uuid id => some id.octets
  | bytes id => some id
  | number _ => none

theorem Identifier.Classifies.eq_of_octets? {sent bytes : List UInt8} {identifier : Identifier}
    (classified : Classifies sent identifier) (learnt : identifier.octets? = some bytes) :
    sent = bytes := by
  cases classified with
  | uuid => exact Option.some.inj learnt
  | number => cases learnt
  | bytes => exact Option.some.inj learnt

namespace Layout

variable {layout : Layout}

/-- The AD structure that decoding takes. -/
def taken? (layout : Layout) (advertisement : List UInt8) : Option AdStructure :=
  (Advertisement.structures advertisement).find? fun element =>
    (layout.readStructure element).isSome

theorem decode_eq_bind_taken? (layout : Layout) (advertisement : List UInt8) :
    layout.decode advertisement = (layout.taken? advertisement).bind layout.readStructure := by
  rw [decode, taken?]
  induction Advertisement.structures advertisement with
  | nil => rfl
  | cons element elements ih =>
      rw [List.findSome?_cons, List.find?_cons]
      cases read : layout.readStructure element with
      | none => exact ih
      | some reading => exact read.symm

/-- Where a layout compares known prefixes, it compares them with the bytes of its first identifier
in the order in which they are read. -/
structure ComparesAsRead (layout : Layout) (range : ByteRange) : Prop where
  iBeacon : layout.service = none → ∀ matcher ∈ layout.matcher,
    matcher.expected = 0x0215 → matcher.range.width = 2 →
      range.first = matcher.range.last + 1 ∧ range.littleEndian = false
  service : ∀ service ∈ layout.service, service.range.last < range.first →
    range.littleEndian = false

/-- A payload carries the bytes of its first identifier as a known prefix. -/
theorem ComparesAsRead.carriesPrefix {range : ByteRange} (compared : layout.ComparesAsRead range)
    (head : range ∈ layout.identifiers.head?) {payload bytes : List UInt8}
    (carried : range.Carries payload bytes) : layout.CarriesPrefix payload bytes := by
  have front (bigEndian : range.littleEndian = false) : bytes <+: payload.drop range.first := by
    rw [ByteRange.Carries, bigEndian] at carried
    exact ByteRange.Holds.isPrefix carried
  constructor
  case iBeacon =>
    intro source matcher present code width
    obtain ⟨start, bigEndian⟩ := compared.iBeacon source matcher present code width
    exact start ▸ front bigEndian
  case identifier =>
    intro service source other same behind
    cases Option.some.inj (head.symm.trans same)
    rw [List.take_of_length_le carried.length.le]
    exact front (compared.service service source behind)

/-- The first identifier of a reading is carried by the payload at the first range. -/
theorem Describes.exists_carries_of_octets? {payload : List UInt8} {reading : Reading}
    (described : layout.Describes payload reading) {identifier : Identifier}
    (first : reading.identifiers.head? = some identifier) {bytes : List UInt8}
    (learnt : identifier.octets? = some bytes) :
    ∃ range ∈ layout.identifiers.head?, range.Carries payload bytes := by
  have pairs := described.identifiers
  cases found : reading.identifiers with
  | nil =>
      rw [found] at first
      cases first
  | cons own others =>
      rw [found] at first pairs
      cases first
      obtain ⟨range, ranges, ⟨sent, carried, classified⟩, _, whole⟩ :=
        List.forall₂_cons_right_iff.1 pairs
      cases classified.eq_of_octets? learnt
      exact ⟨range, by rw [whole]; rfl, carried⟩

/-- A beacon that was decoded gets through when the bytes of its first identifier are the only known
prefix, if the layout compares prefixes as it reads its first identifier. -/
theorem learnt_prefix_found {text : List Char} (parsed : parse text = .ok layout)
    (front : ∀ service ∈ layout.service, service.range.first = 0)
    {advertisement : List UInt8} {element : AdStructure}
    (taken : layout.taken? advertisement = some element) {ids : List UInt16}
    (company : layout.service = none → ∃ id ∈ ids, element.companyId = some id)
    {reading : Reading} (decoded : layout.decode advertisement = some reading)
    {identifier : Identifier} (first : reading.identifiers.head? = some identifier)
    {bytes : List UInt8} (learnt : identifier.octets? = some bytes)
    (compared : ∀ range ∈ layout.identifiers.head?, layout.ComparesAsRead range)
    {filters : List ScanFilter} (made : layout.scanFilters ids [bytes] = .ok filters) :
    ∃ filter ∈ filters, filter.accepts advertisement = true := by
  have bounds := wellFormed_of_parse parsed
  rw [decode_eq_bind_taken?, taken] at decoded
  obtain ⟨accepted, described⟩ := (readStructure_eq_some_iff bounds).1 decoded
  obtain ⟨range, head, carried⟩ := described.exists_carries_of_octets? first learnt
  obtain ⟨filter, member, selected, fits⟩ := exists_filter accepted front made company fun _ =>
    ⟨bytes, List.mem_singleton_self _, (compared range head).carriesPrefix head carried⟩
  exact ⟨filter, member, ScanFilter.accepts_iff.2
    ⟨element, List.mem_of_find?_eq_some taken, selected, fits⟩⟩

theorem learnt_prefix_found_iBeacon :
    ∃ layout filters, parse "m:2-3=0215,i:4-8,i:9-10".toList = .ok layout ∧
      ((layout.decode [12, 0xFF, 0x4C, 0, 2, 0x15, 1, 2, 3, 4, 5, 6, 7]).map (·.identifiers)) =
        some [.bytes [1, 2, 3, 4, 5], .number 0x0607] ∧
      layout.scanFilters [0x0118, 0x004C] [[1, 2, 3, 4, 5]] = .ok filters ∧
      ∃ filter ∈ filters,
        filter.accepts [12, 0xFF, 0x4C, 0, 2, 0x15, 1, 2, 3, 4, 5, 6, 7] = true := by
  have parsed : parse "m:2-3=0215,i:4-8,i:9-10".toList =
      .ok { matcher := some ⟨⟨2, 3, false⟩, 0x0215⟩
            identifiers := [⟨4, 8, false⟩, ⟨9, 10, false⟩] } := by
    rfl
  have made : scanFilters
      { matcher := some ⟨⟨2, 3, false⟩, 0x0215⟩
        identifiers := [⟨4, 8, false⟩, ⟨9, 10, false⟩] } [0x0118, 0x004C] [[1, 2, 3, 4, 5]] = .ok
      ([0x0118, 0x004C].map fun id => ⟨.manufacturer id, [0, 0, 2, 0x15, 1, 2, 3, 4, 5],
        [0, 0, 0xFF, 0xFF, 0xFF, 0xFF, 0xFF, 0xFF, 0xFF], 0⟩) := by
    rfl
  have walk : Advertisement.structures [12, 0xFF, 0x4C, 0, 2, 0x15, 1, 2, 3, 4, 5, 6, 7] =
      [⟨0xFF, [0x4C, 0, 2, 0x15, 1, 2, 3, 4, 5, 6, 7]⟩] :=
    @Advertisement.structures_encode ⟨0xFF, [0x4C, 0, 2, 0x15, 1, 2, 3, 4, 5, 6, 7]⟩ (by decide)
  have decoded : decode
      { matcher := some ⟨⟨2, 3, false⟩, 0x0215⟩
        identifiers := [⟨4, 8, false⟩, ⟨9, 10, false⟩] }
      [12, 0xFF, 0x4C, 0, 2, 0x15, 1, 2, 3, 4, 5, 6, 7] =
      some ⟨0x0215, [.bytes [1, 2, 3, 4, 5], .number 0x0607], [], none⟩ := by
    rw [decode, walk]
    rfl
  refine ⟨_, _, parsed, by rw [decoded]; rfl, made, learnt_prefix_found parsed (by simp)
    (by rw [taken?, walk]; rfl) ?_ decoded rfl rfl ?_ made⟩
  · exact fun _ => ⟨0x004C, by decide, rfl⟩
  · intro range head
    cases head
    constructor
    case iBeacon =>
      intro _ matcher present _ _
      cases present
      exact ⟨rfl, rfl⟩
    case service => simp

/-- An iBeacon whose first identifier starts further behind the type code is hidden once it is known,
and so is a beacon whose first identifier is read least significant byte first. -/
theorem learnt_prefix_hides :
    (∃ layout filter, parse "m:2-3=0215,i:5-9".toList = .ok layout ∧
      layout.taken? [11, 0xFF, 0x4C, 0, 2, 0x15, 0, 1, 2, 3, 4, 5] =
        some ⟨0xFF, [0x4C, 0, 2, 0x15, 0, 1, 2, 3, 4, 5]⟩ ∧
      AdStructure.companyId ⟨0xFF, [0x4C, 0, 2, 0x15, 0, 1, 2, 3, 4, 5]⟩ = some 0x004C ∧
      layout.decode [11, 0xFF, 0x4C, 0, 2, 0x15, 0, 1, 2, 3, 4, 5] =
        some ⟨0x0215, [.bytes [1, 2, 3, 4, 5]], [], none⟩ ∧
      layout.scanFilters [0x004C] [[1, 2, 3, 4, 5]] = .ok [filter] ∧
      filter.accepts [11, 0xFF, 0x4C, 0, 2, 0x15, 0, 1, 2, 3, 4, 5] = false) ∧
    ∃ layout filter, parse "s:0-1=feaa,i:2-6l".toList = .ok layout ∧
      layout.taken? [8, 0x16, 0xAA, 0xFE, 1, 2, 3, 4, 5] =
        some ⟨0x16, [0xAA, 0xFE, 1, 2, 3, 4, 5]⟩ ∧
      layout.decode [8, 0x16, 0xAA, 0xFE, 1, 2, 3, 4, 5] =
        some ⟨0, [.bytes [5, 4, 3, 2, 1]], [], none⟩ ∧
      layout.scanFilters [] [[5, 4, 3, 2, 1]] = .ok [filter] ∧
      filter.accepts [8, 0x16, 0xAA, 0xFE, 1, 2, 3, 4, 5] = false := by
  constructor
  · have walk : Advertisement.structures [11, 0xFF, 0x4C, 0, 2, 0x15, 0, 1, 2, 3, 4, 5] =
        [⟨0xFF, [0x4C, 0, 2, 0x15, 0, 1, 2, 3, 4, 5]⟩] :=
      @Advertisement.structures_encode ⟨0xFF, [0x4C, 0, 2, 0x15, 0, 1, 2, 3, 4, 5]⟩ (by decide)
    refine ⟨{ matcher := some ⟨⟨2, 3, false⟩, 0x0215⟩, identifiers := [⟨5, 9, false⟩] },
      ⟨.manufacturer 0x004C, [0, 0, 2, 0x15, 1, 2, 3, 4, 5],
        [0, 0, 0xFF, 0xFF, 0xFF, 0xFF, 0xFF, 0xFF, 0xFF], 0⟩, rfl, ?_⟩
    rw [taken?, decode, ScanFilter.accepts, walk]
    decide
  · have walk : Advertisement.structures [8, 0x16, 0xAA, 0xFE, 1, 2, 3, 4, 5] =
        [⟨0x16, [0xAA, 0xFE, 1, 2, 3, 4, 5]⟩] :=
      @Advertisement.structures_encode ⟨0x16, [0xAA, 0xFE, 1, 2, 3, 4, 5]⟩ (by decide)
    refine ⟨{ service := some ⟨.assigned 0xFEAA, ⟨0, 1, false⟩⟩, identifiers := [⟨2, 6, true⟩] },
      ⟨.service (.assigned 0xFEAA), [5, 4, 3, 2, 1], [0xFF, 0xFF, 0xFF, 0xFF, 0xFF], 2⟩, rfl, ?_⟩
    rw [taken?, decode, ScanFilter.accepts, walk]
    decide

end Layout

end BleBeacon
