import BleBeacon.Proofs.Advertisement.Encoding
import BleBeacon.Proofs.Filter.Selection

/-!
# Known prefixes narrow

A filter that compares a known prefix too is meant to let fewer advertisements through. But the first
identifier of a service layout may share bytes with the matcher, and there the prefix replaces what
the matcher asks for. So the filters with prefixes let nothing else through exactly if no prefix has
other bytes there than the matcher.
-/

namespace BleBeacon.Layout

variable {layout : Layout}

/-- A prefix has the bytes of the matcher wherever the filters of a layout compare it at the matcher.
That takes a service layout, because an iBeacon compares prefixes behind its matcher. -/
def AgreesWithMatcher (layout : Layout) (bytes : List UInt8) : Prop :=
  ∀ service ∈ layout.service, ∀ range ∈ layout.identifiers.head?,
    service.range.last < range.first → ∀ matcher ∈ layout.matcher, ∀ position,
      range.first ≤ position → matcher.range.first ≤ position →
        ∀ byte ∈ (bytes.take range.width)[position - range.first]?,
        ∀ pin ∈ matcher.bytes[position - matcher.range.first]?, byte = pin

/-! ## Agreeing prefixes -/

/-- A prefix that agrees with the matcher replaces no pin of its pattern by another. -/
theorem AgreesWithMatcher.eq_pin (bounds : layout.WellFormed) {base : Pattern}
    (matched : layout.basePattern = .ok base) {bytes : List UInt8}
    (agrees : layout.AgreesWithMatcher bytes) {slot : PrefixSlot}
    (narrow : layout.prefixSlot? = some slot) {other : Nat} {byte pin : UInt8}
    (behind : slot.start - layout.filterOffset ≤ other)
    (written : (slot.clip bytes)[other - (slot.start - layout.filterOffset)]? = some byte)
    (pinned : base.cells[other]? = some (some pin)) : byte = pin := by
  obtain ⟨matcher, present, first, held⟩ := (pinned_basePattern_iff matched).1 pinned
  have start := filterOffset_le_start narrow
  rcases prefixSlot?_eq_some_iff.1 narrow with
    ⟨source, iBeacon, same, _, rfl⟩ | ⟨service, source, range, head, apart, rfl⟩
  · -- The bytes of the matcher end in front of the slot.
    cases Option.some.inj (present.symm.trans same)
    have width := ByteRange.first_add_width (bounds.matcher matcher present).1.ordered
    have inside := (List.getElem?_eq_some_iff.1 held).1
    rw [matcher.length_bytes] at inside
    change matcher.range.last + 1 - layout.filterOffset ≤ other at behind
    omega
  · change layout.filterOffset ≤ range.first at start
    change range.first - layout.filterOffset ≤ other at behind
    have same : other - (range.first - layout.filterOffset) =
        layout.filterOffset + other - range.first := by
      omega
    exact agrees service source range head apart matcher present (layout.filterOffset + other)
      (by omega) first byte (same ▸ written) pin held

/-- A pattern with prefixes that agree with the matcher is fitted by nothing else than the pattern of
the matcher. -/
theorem fits_basePattern_of_mem_patterns (bounds : layout.WellFormed) {base pattern : Pattern}
    (matched : layout.basePattern = .ok base) {prefixes : List (List UInt8)}
    (agree : ∀ bytes ∈ prefixes, layout.AgreesWithMatcher bytes)
    (member : .ok pattern ∈ layout.patterns base prefixes) {bytes : List UInt8}
    (fits : pattern.Fits bytes) : base.Fits bytes := by
  rcases eq_base_or_writeAll_of_mem_patterns member with
    rfl | ⟨slot, narrow, known, listed, written⟩
  · exact fits
  · exact fits.of_writeAll written fun other byte pin =>
      (agree known listed).eq_pin bounds matched narrow

/-! ## Prefixes against the matcher -/

/-- The structure with the UUID of a service and bytes from an offset behind it on. -/
def serviceStructure (uuid : ServiceUuid) (offset : Nat) (bytes : List UInt8) : AdStructure where
  adType := AdType.serviceData16
  data := uuid.onAir ++ List.replicate (offset - uuid.width) 0 ++ bytes

/-- A service filter lets such a structure through exactly if the bytes fit its pattern. -/
theorem accepts_serviceStructure_iff {uuid : ServiceUuid} {offset : Nat}
    (behind : uuid.width ≤ offset) {bytes : List UInt8}
    (short : offset + bytes.length ≤ AdStructure.maxDataLength)
    {pattern : Pattern} :
    (ScanFilter.ofPattern (.service uuid) offset pattern).accepts
      (serviceStructure uuid offset bytes).encode = true ↔ pattern.Fits bytes := by
  have front : (uuid.onAir ++ List.replicate (offset - uuid.width) 0).length = offset := by
    rw [List.length_append, ServiceUuid.length_onAir, List.length_replicate]
    omega
  have length : (serviceStructure uuid offset bytes).data.length = offset + bytes.length := by
    rw [serviceStructure, List.length_append, front]
  have rest : (serviceStructure uuid offset bytes).data.drop offset = bytes :=
    List.drop_left' front
  have keyed : (FilterKey.service uuid).selects (serviceStructure uuid offset bytes) = true := by
    rw [FilterKey.selects_service_iff, serviceStructure, List.append_assoc]
    exact ⟨uuid.carriedBy_serviceData16, List.prefix_append _ _⟩
  rw [ScanFilter.accepts_iff, Advertisement.structures_encode (length ▸ short)]
  simp only [List.mem_singleton, exists_eq_left, ScanFilter.acceptsPayload_ofPattern_iff, rest]
  exact and_iff_right keyed

theorem width_le_filterOffset (bounds : layout.WellFormed) {service : ServiceField}
    (source : layout.service = some service) : service.uuid.width ≤ layout.filterOffset := by
  obtain ⟨within, _, width⟩ := bounds.service service source
  have length := ByteRange.first_add_width within.ordered
  rw [filterOffset_of_service source]
  omega

/-- The pattern of the matcher ends within the payload of a structure. -/
theorem length_basePattern_le (bounds : layout.WellFormed) {base : Pattern}
    (matched : layout.basePattern = .ok base) :
    base.length ≤ maxOffset + 1 - layout.filterOffset := by
  rcases eq_empty_or_pattern_of_basePattern matched with ⟨_, rfl⟩ | ⟨matcher, present, made⟩
  · exact Nat.zero_le _
  · have within := (bounds.matcher matcher present).1
    rw [Matcher.length_pattern made, ByteRange.first_add_width within.ordered]
    exact Nat.sub_le_sub_right (Nat.succ_le_succ within.last_le) _

/-- A prefix that the filters of a service layout compare lies within the payload of a structure, and
so does every pattern with it. -/
theorem length_narrowed_le (bounds : layout.WellFormed) {base pattern : Pattern}
    (matched : layout.basePattern = .ok base) {range : ByteRange}
    (head : range ∈ layout.identifiers.head?) (behind : layout.filterOffset ≤ range.first)
    {bytes : List UInt8}
    (written : base.writeAll (range.first - layout.filterOffset) (bytes.take range.width) =
      .ok pattern) : layout.filterOffset + pattern.length ≤ AdStructure.maxDataLength := by
  have within := bounds.identifiers range (List.mem_of_mem_head? head)
  have width := ByteRange.first_add_width within.ordered
  have last : range.last + 1 ≤ AdStructure.maxDataLength := Nat.succ_le_succ within.last_le
  have short : base.length ≤ AdStructure.maxDataLength - layout.filterOffset :=
    length_basePattern_le bounds matched
  by_cases none : bytes.take range.width = []
  · rw [none] at written
    cases written
    omega
  · have clipped := List.length_take_le range.width bytes
    rw [Pattern.length_writeAll none written]
    omega

/-- A prefix agrees with the matcher if bytes fit the pattern of the matcher with and without it. -/
theorem agreesWithMatcher_of_fits {base : Pattern} (matched : layout.basePattern = .ok base)
    {bytes : List UInt8}
    (shared : ∀ service ∈ layout.service, ∀ range ∈ layout.identifiers.head?,
      service.range.last < range.first → ∃ pattern payload,
        base.writeAll (range.first - layout.filterOffset) (bytes.take range.width) = .ok pattern ∧
          base.Fits payload ∧ pattern.Fits payload) : layout.AgreesWithMatcher bytes := by
  intro service source range head behind matcher present position start first byte known pin held
  obtain ⟨pattern, payload, written, before, after⟩ := shared service source range head behind
  -- The prefix and the matcher have their bytes at the same index of the pattern.
  have index : layout.filterOffset +
      (range.first - layout.filterOffset + (position - range.first)) = position := by
    rw [filterOffset_of_service source]
    omega
  refine before.eq_pin_of_writeAll written after known ?_
  exact (pinned_basePattern_iff matched).2
    ⟨matcher, present, by rw [index]; exact ⟨first, held⟩⟩

/-! ## Filters -/

/-- The filters with prefixes let no advertisement through that the filters without prefixes do not
let through, exactly if every prefix agrees with the matcher where it is compared with it. -/
theorem prefixes_only_narrow_iff {text : List Char} (parsed : parse text = .ok layout)
    {ids : List UInt16} {prefixes : List (List UInt8)} {narrow wide : List ScanFilter}
    (narrowMade : layout.scanFilters ids prefixes = .ok narrow)
    (wideMade : layout.scanFilters ids [] = .ok wide) :
    (∀ advertisement, (∃ filter ∈ narrow, filter.accepts advertisement = true) →
      ∃ filter ∈ wide, filter.accepts advertisement = true) ↔
      ∀ bytes ∈ prefixes, layout.AgreesWithMatcher bytes := by
  have bounds := wellFormed_of_parse parsed
  obtain ⟨base, matched, patterned, members⟩ := mem_of_scanFilters narrowMade
  obtain ⟨other, otherMatched, rfl⟩ := eq_map_of_scanFilters (.inr rfl) wideMade
  cases Except.ok.inj (matched.symm.trans otherMatched)
  constructor
  · intro narrows bytes listed
    refine agreesWithMatcher_of_fits matched fun service source range head behind => ?_
    have slot : layout.prefixSlot? = some ⟨range.first, some range.width⟩ :=
      prefixSlot?_eq_some_iff.2 (.inr ⟨service, source, range, head, behind, rfl⟩)
    have candidate := writeAll_mem_patterns slot base listed
    obtain ⟨pattern, written⟩ := patterned _ candidate
    -- The structure with exactly the bytes that the filter with the prefix compares gets through.
    have keys := filterKeys_of_service source ids
    have front := width_le_filterOffset bounds source
    have short := length_narrowed_le bounds matched head (filterOffset_le_start slot) written
    rw [← pattern.length_filter] at short
    have made := (members _).2
      ⟨.service service.uuid, keys ▸ List.mem_singleton_self _, pattern, written ▸ candidate, rfl⟩
    obtain ⟨filter, member, accepts⟩ := narrows _
      ⟨_, made, (accepts_serviceStructure_iff front short).2 pattern.fits_filter⟩
    rw [keys, List.map_singleton, List.mem_singleton] at member
    rw [member, accepts_serviceStructure_iff front short] at accepts
    exact ⟨pattern, pattern.filter, written, accepts, pattern.fits_filter⟩
  · rintro agree advertisement ⟨filter, member, accepted⟩
    obtain ⟨key, keyed, pattern, listed, rfl⟩ := (members filter).1 member
    obtain ⟨element, present, selected, fits⟩ := ScanFilter.accepts_iff.1 accepted
    rw [ScanFilter.acceptsPayload_ofPattern_iff] at fits
    have wider := fits_basePattern_of_mem_patterns bounds matched agree listed fits
    exact ⟨_, List.mem_map_of_mem keyed, ScanFilter.accepts_iff.2
      ⟨element, present, selected, ScanFilter.acceptsPayload_ofPattern_iff.2 wider⟩⟩

/-- A prefix that begins with the byte of the matcher which it shares narrows. -/
theorem prefixes_only_narrow_shared :
    ∃ layout narrow wide, parse "s:0-1=feaa,m:2-2=00,i:2-6".toList = .ok layout ∧
      layout.scanFilters [] [[0, 0xAB]] = .ok narrow ∧ layout.scanFilters [] [] = .ok wide ∧
      ∀ advertisement, (∃ filter ∈ narrow, filter.accepts advertisement = true) →
        ∃ filter ∈ wide, filter.accepts advertisement = true := by
  have parsed : parse "s:0-1=feaa,m:2-2=00,i:2-6".toList =
      .ok { matcher := some ⟨⟨2, 2, false⟩, 0⟩
            service := some ⟨.assigned 0xFEAA, ⟨0, 1, false⟩⟩
            identifiers := [⟨2, 6, false⟩] } := by
    rfl
  have narrowMade : scanFilters
      { matcher := some ⟨⟨2, 2, false⟩, 0⟩
        service := some ⟨.assigned 0xFEAA, ⟨0, 1, false⟩⟩
        identifiers := [⟨2, 6, false⟩] } [] [[0, 0xAB]] =
      .ok [⟨.service (.assigned 0xFEAA), [0, 0xAB], [0xFF, 0xFF], 2⟩] := by
    rfl
  have wideMade : scanFilters
      { matcher := some ⟨⟨2, 2, false⟩, 0⟩
        service := some ⟨.assigned 0xFEAA, ⟨0, 1, false⟩⟩
        identifiers := [⟨2, 6, false⟩] } [] [] =
      .ok [⟨.service (.assigned 0xFEAA), [0], [0xFF], 2⟩] := by
    rfl
  refine ⟨_, _, _, parsed, narrowMade, wideMade,
    (prefixes_only_narrow_iff parsed narrowMade wideMade).2 ?_⟩
  intro bytes listed _ _ range head _ matcher present position start _ byte known pin held
  cases List.mem_singleton.1 listed
  cases head
  cases present
  -- The matcher has a single byte.
  obtain rfl : position = 2 := by
    have inside := (List.getElem?_eq_some_iff.1 held).1
    change position - 2 < 1 at inside
    change 2 ≤ position at start
    omega
  cases known
  cases held
  rfl

/-- A prefix with another byte than the matcher lets advertisements through that the matcher does
not. -/
theorem contradicting_prefix_widens :
    ∃ layout narrow wide, parse "s:0-1=feaa,m:2-2=00,i:2-6".toList = .ok layout ∧
      layout.scanFilters [] [[1]] = .ok [narrow] ∧ layout.scanFilters [] [] = .ok [wide] ∧
      narrow.accepts [4, 0x16, 0xAA, 0xFE, 1] = true ∧
      wide.accepts [4, 0x16, 0xAA, 0xFE, 1] = false := by
  refine ⟨{ matcher := some ⟨⟨2, 2, false⟩, 0⟩
            service := some ⟨.assigned 0xFEAA, ⟨0, 1, false⟩⟩
            identifiers := [⟨2, 6, false⟩] },
    ⟨.service (.assigned 0xFEAA), [1], [0xFF], 2⟩, ⟨.service (.assigned 0xFEAA), [0], [0xFF], 2⟩,
    rfl, rfl, rfl, ?_⟩
  have walk : Advertisement.structures [4, 0x16, 0xAA, 0xFE, 1] = [⟨0x16, [0xAA, 0xFE, 1]⟩] :=
    @Advertisement.structures_encode ⟨0x16, [0xAA, 0xFE, 1]⟩ (by decide)
  rw [ScanFilter.accepts, ScanFilter.accepts, walk]
  decide

end BleBeacon.Layout
