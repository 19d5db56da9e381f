import BleBeacon.Proofs.Filter.Coverage

/-!
# Filters without prefixes

Without known prefixes the filters of a layout ask for the bytes of its matcher and for nothing else.
A manufacturer layout has one filter for each manufacturer identifier, which lets exactly those
structures through that carry the identifier and are accepted by the matcher. The filter of a service
layout starts behind the UUID, so of the matcher it compares the bytes that are not in front of that.
-/

namespace BleBeacon

namespace Layout

variable {layout : Layout} {base : Pattern} (bounds : layout.WellFormed)
  (matched : layout.basePattern = .ok base)

include bounds matched

/-- Compared from the first payload byte on, the pattern of the matcher is the matcher. -/
theorem fits_basePattern_iff_of_manufacturer (source : layout.service = none)
    {payload : List UInt8} :
    base.Fits (payload.drop layout.filterOffset) ↔
      ∀ matcher ∈ layout.matcher, matcher.accepts payload = true := by
  have offset : layout.filterOffset = 0 := by rw [filterOffset, source]
  rw [fits_basePattern_iff matched]
  refine forall₂_congr fun matcher present => ?_
  obtain ⟨within, _, fits⟩ := bounds.matcher matcher present
  rw [Matcher.accepts_iff within fits, ByteRange.holds_iff_getElem? matcher.length_bytes, offset]
  exact forall_congr' fun position => forall_prop_of_true (Nat.zero_le position)

/-- Compared from behind the UUID on, a matcher that ends in front of it asks for nothing, and any
other one for a payload that it lies in and for its bytes behind the UUID. -/
theorem fits_basePattern_iff_of_service {service : ServiceField}
    (source : layout.service = some service) {payload : List UInt8} :
    base.Fits (payload.drop layout.filterOffset) ↔
      ∀ matcher ∈ layout.matcher, matcher.range.last ≤ service.range.last ∨
        matcher.range.last < payload.length ∧ ∀ position, service.range.last < position →
          matcher.range.first ≤ position → position ≤ matcher.range.last →
            payload[position]? = matcher.bytes[position - matcher.range.first]? := by
  rw [fits_basePattern_iff matched, filterOffset_of_service source]
  refine forall₂_congr fun matcher present => ?_
  have ordered := (bounds.matcher matcher present).1.ordered
  have width := ByteRange.first_add_width ordered
  constructor
  · intro each
    refine or_iff_not_imp_left.2 fun reaches => ⟨?_, fun position behind first last =>
      each position behind first (by omega)⟩
    -- The last byte of the matcher is among the compared ones.
    have last := each matcher.range.last (by omega) ordered (by omega)
    have inside : matcher.range.last - matcher.range.first < matcher.bytes.length := by
      rw [matcher.length_bytes]
      omega
    rw [List.getElem?_eq_getElem inside] at last
    exact (List.getElem?_eq_some_iff.1 last).1
  · rintro (front | ⟨_, each⟩) position behind first within
    · omega
    · exact each position behind first (by omega)

omit bounds matched

/-- Made without prefixes, the filters of a manufacturer layout are one for each identifier, which
lets an advertisement through exactly if a structure of it has the identifier and is accepted by the
matcher. A service layout has a single filter, which starts behind the UUID and accepts a payload
exactly if it lies there as the matcher says, unless the matcher ends in front of that. -/
theorem filters_without_prefixes {text : List Char} (parsed : parse text = .ok layout)
    {ids : List UInt16} {filters : List ScanFilter} (made : layout.scanFilters ids [] = .ok filters) :
    (layout.service = none → List.Forall₂ (fun id filter => ∀ advertisement,
      filter.accepts advertisement = true ↔
        ∃ element ∈ Advertisement.structures advertisement, element.companyId = some id ∧
          ∀ matcher ∈ layout.matcher, matcher.accepts element.data = true) ids filters) ∧
    ∀ service ∈ layout.service, ∃ filter, filters = [filter] ∧
      filter.offset = service.range.last + 1 ∧ ∀ payload,
        filter.acceptsPayload payload = true ↔
          ∀ matcher ∈ layout.matcher, matcher.range.last ≤ service.range.last ∨
            matcher.range.last < payload.length ∧ ∀ position, service.range.last < position →
              matcher.range.first ≤ position → position ≤ matcher.range.last →
                payload[position]? = matcher.bytes[position - matcher.range.first]? := by
  have bounds := wellFormed_of_parse parsed
  obtain ⟨base, matched, rfl⟩ := eq_map_of_scanFilters (.inr rfl) made
  constructor
  · intro source
    have keys : layout.filterKeys ids = ids.map .manufacturer := by rw [filterKeys, source]
    rw [keys, List.map_map, List.forall₂_map_right_iff, List.forall₂_same]
    intro id _ advertisement
    rw [ScanFilter.accepts_iff]
    refine exists_congr fun element => and_congr_right fun _ => and_congr ?_ ?_
    · exact FilterKey.selects_manufacturer_iff
    · exact ScanFilter.acceptsPayload_ofPattern_iff.trans
        (fits_basePattern_iff_of_manufacturer bounds matched source)
  · intro service source
    refine ⟨_, by rw [filterKeys_of_service source, List.map_singleton],
      filterOffset_of_service source, fun payload => ?_⟩
    exact ScanFilter.acceptsPayload_ofPattern_iff.trans
      (fits_basePattern_iff_of_service bounds matched source)

/-- Of a matcher across the end of the UUID the two bytes behind it are compared. -/
theorem filters_without_prefixes_across :
    ∃ layout filter, parse "s:0-1=feaa,m:1-3=fe0010,i:4-5".toList = .ok layout ∧
      layout.scanFilters [] [] = .ok [filter] ∧ filter.offset = 2 ∧
      ∀ payload, filter.acceptsPayload payload = true ↔
        payload[2]? = some 0 ∧ payload[3]? = some 0x10 := by
  have parsed : parse "s:0-1=feaa,m:1-3=fe0010,i:4-5".toList =
      .ok { matcher := some ⟨⟨1, 3, false⟩, 0xFE0010⟩
            service := some ⟨.assigned 0xFEAA, ⟨0, 1, false⟩⟩
            identifiers := [⟨4, 5, false⟩] } := by
    rfl
  have made : scanFilters
      { matcher := some ⟨⟨1, 3, false⟩, 0xFE0010⟩
        service := some ⟨.assigned 0xFEAA, ⟨0, 1, false⟩⟩
        identifiers := [⟨4, 5, false⟩] } [] [] =
      .ok [⟨.service (.assigned 0xFEAA), [0, 0x10], [0xFF, 0xFF], 2⟩] := by
    rfl
  obtain ⟨filter, whole, offset, accepts⟩ := (filters_without_prefixes parsed made).2 _ rfl
  cases whole
  refine ⟨_, _, parsed, made, offset, fun payload => (accepts payload).trans ?_⟩
  constructor
  · intro each
    obtain ⟨_, bytes⟩ := (each _ rfl).resolve_left (by decide)
    exact ⟨bytes 2 (by decide) (by decide) (by decide), bytes 3 (by decide) (by decide) (by decide)⟩
  · rintro ⟨second, third⟩ matcher ⟨⟩
    refine .inr ⟨(List.getElem?_eq_some_iff.1 third).1, fun position behind _ last => ?_⟩
    change 1 < position at behind
    change position ≤ 3 at last
    obtain rfl | rfl : position = 2 ∨ position = 3 := by omega
    · exact second
    · exact third

end Layout

end BleBeacon
