import BleBeacon.Proofs.Catalog
import BleBeacon.Proofs.Decoding
import BleBeacon.Proofs.Filter.Synthesis
import Mathlib.Data.List.Infix

/-!
# Filters cover what is decoded

The filters of a scan session never hide a beacon. A structure that a layout accepts has the bytes of
the matcher, and where the layout narrows its filters it carries one of the known prefixes, so it fits
one of the patterns of the layout; and it is selected by one of the keys, each of which gets every
pattern. A service filter looks for the UUID at the start of the payload, so this holds for layouts
that do the same.
-/

namespace BleBeacon

/-! ## Patterns -/

namespace Layout

/-- A payload that a layout accepts fits the pattern of the matcher, wherever that starts. -/
theorem Accepts.fits_basePattern {layout : Layout} {element : AdStructure}
    (accepted : layout.Accepts element) {base : Pattern}
    (matched : layout.basePattern = .ok base) :
    base.Fits (element.data.drop layout.filterOffset) := by
  refine (fits_basePattern_iff matched).2 fun matcher present position _ => ?_
  have held := accepted.matcher matcher present
  exact (ByteRange.holds_iff_getElem? matcher.length_bytes).1 held position

/-- A payload carries a known prefix where the filters of a layout are narrowed by it: an iBeacon
right behind the type code, a service layout at a first identifier behind the UUID. Other layouts do
not narrow and ask for nothing. -/
structure CarriesPrefix (layout : Layout) (payload bytes : List UInt8) : Prop where
  iBeacon : layout.service = none → ∀ matcher ∈ layout.matcher,
    matcher.expected = 0x0215 → matcher.range.width = 2 →
      bytes <+: payload.drop (matcher.range.last + 1)
  identifier : ∀ service ∈ layout.service, ∀ range ∈ layout.identifiers.head?,
    service.range.last < range.first → bytes.take range.width <+: payload.drop range.first

theorem CarriesPrefix.clip {layout : Layout} {payload bytes : List UInt8} {slot : PrefixSlot}
    (carried : layout.CarriesPrefix payload bytes) (narrow : layout.prefixSlot? = some slot) :
    slot.clip bytes <+: payload.drop slot.start := by
  rcases prefixSlot?_eq_some_iff.1 narrow with
    ⟨source, matcher, present, iBeacon, rfl⟩ | ⟨service, source, range, head, behind, rfl⟩
  · obtain ⟨code, width⟩ := Matcher.isIBeacon_iff.1 iBeacon
    exact carried.iBeacon source matcher present code width
  · exact carried.identifier service source range head behind

/-- Some pattern of a layout is fitted, once the pattern of the matcher is. -/
theorem exists_pattern {layout : Layout} {payload : List UInt8} {base : Pattern}
    (fits : base.Fits (payload.drop layout.filterOffset)) {prefixes : List (List UInt8)}
    (carried : prefixes ≠ [] → ∃ bytes ∈ prefixes, layout.CarriesPrefix payload bytes) :
    ∃ candidate ∈ layout.patterns base prefixes, ∀ pattern, candidate = .ok pattern →
      pattern.Fits (payload.drop layout.filterOffset) := by
  by_cases wide : layout.prefixSlot? = none ∨ prefixes = []
  · rw [patterns_of_wide wide]
    refine ⟨_, List.mem_singleton_self _, fun pattern made => ?_⟩
    cases made
    exact fits
  · obtain ⟨place, some⟩ := not_or.1 wide
    obtain ⟨slot, narrow⟩ := Option.ne_none_iff_exists'.1 place
    obtain ⟨bytes, member, present⟩ := carried some
    refine ⟨_, writeAll_mem_patterns narrow base member, fun pattern made =>
      fits.writeAll ?_ made⟩
    rw [List.drop_drop, Nat.add_sub_cancel' (filterOffset_le_start narrow)]
    exact present.clip narrow

end Layout

/-! ## Keys -/

namespace FilterKey

theorem selects_manufacturer_iff {id : UInt16} {element : AdStructure} :
    (manufacturer id).selects element = true ↔ element.companyId = some id := by
  rw [selects, beq_iff_eq]

theorem selects_service_iff {uuid : ServiceUuid} {element : AdStructure} :
    (service uuid).selects element = true ↔
      uuid.carriedBy element.adType = true ∧ uuid.onAir <+: element.data := by
  rw [selects, Bool.and_eq_true, ServiceUuid.accepts_iff, List.prefix_iff_eq_take,
    ServiceUuid.length_onAir, eq_comm (a := uuid.onAir)]

end FilterKey

namespace Layout

/-- Some key of a layout selects a structure that the layout accepts. -/
theorem exists_key {layout : Layout} {element : AdStructure}
    (accepted : layout.Accepts element)
    (front : ∀ service ∈ layout.service, service.range.first = 0) {ids : List UInt16}
    (known : layout.service = none → ∃ id ∈ ids, element.companyId = some id) :
    ∃ key ∈ layout.filterKeys ids, key.selects element = true := by
  unfold filterKeys
  cases service : layout.service with
  | none =>
      obtain ⟨id, member, company⟩ := known service
      exact ⟨_, List.mem_map_of_mem member, FilterKey.selects_manufacturer_iff.2 company⟩
  | some part =>
      obtain ⟨type, held⟩ := (sourced_iff_of_service service).1 accepted.source
      have start := held.isPrefix
      rw [front part service, List.drop_zero] at start
      exact ⟨_, List.mem_singleton_self _, FilterKey.selects_service_iff.2 ⟨type, start⟩⟩

end Layout

/-! ## Filters -/

namespace ScanFilter

theorem accepts_iff {filter : ScanFilter} {advertisement : List UInt8} :
    filter.accepts advertisement = true ↔
      ∃ element ∈ Advertisement.structures advertisement,
        filter.key.selects element = true ∧ filter.acceptsPayload element.data = true := by
  simp only [accepts, List.any_eq_true, Bool.and_eq_true]

theorem acceptsPayload_ofPattern_iff {key : FilterKey} {offset : Nat} {pattern : Pattern}
    {payload : List UInt8} :
    (ofPattern key offset pattern).acceptsPayload payload = true ↔
      pattern.Fits (payload.drop offset) :=
  Pattern.maskedMatch_iff

end ScanFilter

namespace Layout

/-- Some filter of a layout lets a structure through that the layout accepts. -/
theorem exists_filter {layout : Layout} {element : AdStructure}
    (accepted : layout.Accepts element)
    (front : ∀ service ∈ layout.service, service.range.first = 0)
    {ids : List UInt16} {prefixes : List (List UInt8)} {filters : List ScanFilter}
    (made : layout.scanFilters ids prefixes = .ok filters)
    (known : layout.service = none → ∃ id ∈ ids, element.companyId = some id)
    (carried : prefixes ≠ [] → ∃ bytes ∈ prefixes, layout.CarriesPrefix element.data bytes) :
    ∃ filter ∈ filters, filter.key.selects element = true ∧
      filter.acceptsPayload element.data = true := by
  -- A key that selects the structure and a pattern that it fits can be found independently, because
  -- there is a filter for every pair.
  obtain ⟨base, matched, patterned, members⟩ := mem_of_scanFilters made
  obtain ⟨key, keyed, selected⟩ := exists_key accepted front known
  obtain ⟨candidate, listed, each⟩ := exists_pattern (accepted.fits_basePattern matched) carried
  obtain ⟨pattern, rfl⟩ := patterned candidate listed
  exact ⟨_, (members _).2 ⟨key, keyed, pattern, listed, rfl⟩, selected,
    ScanFilter.acceptsPayload_ofPattern_iff.2 (each pattern rfl)⟩

end Layout

namespace Catalog

/-- The filters of a session let an advertisement through if an enabled entry accepts one of its
structures, is keyed by the company of the structure where it reads Manufacturer Specific Data, and
finds a known prefix there where it narrows its filters by known prefixes. -/
theorem scanFilters_cover {definitions : List Definition} {catalog : Catalog}
    (built : ofDefinitions definitions = .ok catalog)
    (front : ∀ entry ∈ catalog.entries, ∀ service ∈ entry.layout.service, service.range.first = 0)
    {settings : Settings} {known : List KnownPrefix} {filters : List ScanFilter}
    (made : catalog.scanFilters settings known = .ok filters) {entry : Entry}
    (member : entry ∈ catalog.entries) (enabled : settings.isEnabled entry.format = true)
    {advertisement : List UInt8} {element : AdStructure}
    (present : element ∈ Advertisement.structures advertisement)
    (read : (entry.layout.readStructure element).isSome = true)
    (company : entry.layout.service = none →
      ∃ id ∈ entry.manufacturerIds, element.companyId = some id)
    (carried : (∃ knownPrefix ∈ known, knownPrefix.format = entry.format) →
      ∃ knownPrefix ∈ known, knownPrefix.format = entry.format ∧
        entry.layout.CarriesPrefix element.data knownPrefix.bytes) :
    ∃ filter ∈ filters, filter.accepts advertisement = true := by
  obtain ⟨text, parsed⟩ := parse_of_mem built member
  have accepted := (Layout.isSome_readStructure_iff (Layout.wellFormed_of_parse parsed)).1 read
  obtain ⟨part, own, subset⟩ := scanFilters_of_mem made member enabled
  simp only [Entry.scanFilters] at own
  split at own
  · cases own
  · have prefixes : prefixesOf known entry.format ≠ [] → ∃ bytes ∈ prefixesOf known entry.format,
        entry.layout.CarriesPrefix element.data bytes := by
      intro some
      obtain ⟨bytes, listed⟩ := List.exists_mem_of_ne_nil _ some
      obtain ⟨first, inside, format, _⟩ := mem_prefixesOf_iff.1 listed
      obtain ⟨narrow, inside, format, carried⟩ := carried ⟨first, inside, format⟩
      exact ⟨narrow.bytes, mem_prefixesOf_iff.2 ⟨narrow, inside, format, rfl⟩, carried⟩
    obtain ⟨filter, made, selected, matched⟩ :=
      Layout.exists_filter accepted (front entry member) own company prefixes
    refine ⟨filter, subset filter made, ?_⟩
    rw [ScanFilter.accepts, List.any_eq_true]
    exact ⟨element, present, by rw [selected, matched]; rfl⟩

theorem scanFilters_cover_iBeacon :
    ∃ catalog filters,
      ofDefinitions [⟨.iBeacon, "m:2-3=0215,i:4-5", [0x004C]⟩] = .ok catalog ∧
      catalog.scanFilters {} [⟨.iBeacon, [0xAB]⟩] = .ok filters ∧
      ∃ filter ∈ filters, filter.accepts [7, 0xFF, 0x4C, 0, 2, 0x15, 0xAB, 0xCD] = true := by
  have built : ofDefinitions [⟨.iBeacon, "m:2-3=0215,i:4-5", [0x004C]⟩] = .ok
      ⟨[⟨.iBeacon, { matcher := some ⟨⟨2, 3, false⟩, 0x0215⟩, identifiers := [⟨4, 5, false⟩] },
        [0x004C]⟩]⟩ := by
    rfl
  have made : scanFilters
      ⟨[⟨.iBeacon, { matcher := some ⟨⟨2, 3, false⟩, 0x0215⟩, identifiers := [⟨4, 5, false⟩] },
        [0x004C]⟩]⟩ {} [⟨.iBeacon, [0xAB]⟩] = .ok
      [⟨.manufacturer 0x004C, [0, 0, 2, 0x15, 0xAB], [0, 0, 0xFF, 0xFF, 0xFF], 0⟩] := by
    rfl
  have walk : Advertisement.structures [7, 0xFF, 0x4C, 0, 2, 0x15, 0xAB, 0xCD] =
      [⟨0xFF, [0x4C, 0, 2, 0x15, 0xAB, 0xCD]⟩] := by
    simp [Advertisement.structures, Advertisement.next]
  refine ⟨_, _, built, made, scanFilters_cover built ?_ made (List.mem_singleton_self _) ?_
    (walk ▸ List.mem_singleton_self _) ?_ ?_ ?_⟩
  · simp
  · rfl
  · rfl
  · exact fun _ => ⟨0x004C, List.mem_singleton_self _, rfl⟩
  · exact fun _ => ⟨_, List.mem_singleton_self _, rfl, ⟨by simp, by simp⟩⟩

end Catalog

end BleBeacon
