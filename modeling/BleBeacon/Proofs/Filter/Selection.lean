import BleBeacon.Proofs.Filter.Coverage

/-!
# What filters and layouts select

A service layout looks for its UUID at a range of the payload, its filters look for the same UUID at
the start of the payload. The two select the same structures exactly if the range starts there. With
any other range there are structures that every filter is keyed on but that the layout does not
apply to, and there can be beacons that are decoded but that no filter lets through.
-/

namespace BleBeacon

theorem ServiceUuid.carriedBy_serviceData16 (uuid : ServiceUuid) :
    uuid.carriedBy AdType.serviceData16 = true := by
  cases uuid with
  | assigned => rfl
  | full => rfl

namespace Layout

variable {layout : Layout} {service : ServiceField} (source : layout.service = some service)
include source

/-- Every filter of a service layout is keyed on its UUID. -/
theorem key_of_mem_scanFilters {ids : List UInt16} {prefixes : List (List UInt8)}
    {filters : List ScanFilter} (made : layout.scanFilters ids prefixes = .ok filters)
    {filter : ScanFilter} (member : filter ∈ filters) : filter.key = .service service.uuid := by
  obtain ⟨_, _, _, members⟩ := mem_of_scanFilters made
  obtain ⟨key, keyed, _, _, rfl⟩ := (members filter).1 member
  rw [filterKeys_of_service source] at keyed
  exact List.mem_singleton.1 keyed

theorem selects_service_iff (bounds : layout.WellFormed) {element : AdStructure} :
    layout.selects element = true ↔ service.uuid.carriedBy element.adType = true ∧
      service.uuid.onAir <+: element.data.drop service.range.first := by
  obtain ⟨_, _, width⟩ := bounds.service service source
  rw [selects_iff bounds, sourced_iff_of_service source,
    ByteRange.holds_iff_isPrefix (by rw [ServiceUuid.length_onAir, width])]

omit source

/-- Filters of a service layout find the UUID at the start of the payload and the layout at its
range, so they select the same structures exactly if the range starts at the first payload byte. -/
theorem filters_select_same_iff {text : List Char} (parsed : parse text = .ok layout)
    (source : layout.service = some service) {ids : List UInt16} {prefixes : List (List UInt8)}
    {filters : List ScanFilter} (made : layout.scanFilters ids prefixes = .ok filters)
    {filter : ScanFilter} (member : filter ∈ filters) :
    (∀ element, filter.key.selects element = true ↔
      service.uuid.carriedBy element.adType = true ∧ service.uuid.onAir <+: element.data) ∧
    (∀ element, layout.selects element = true ↔ service.uuid.carriedBy element.adType = true ∧
      service.uuid.onAir <+: element.data.drop service.range.first) ∧
    ((∀ element, filter.key.selects element = layout.selects element) ↔
      service.range.first = 0) := by
  have keyed : ∀ element, filter.key.selects element = true ↔
      service.uuid.carriedBy element.adType = true ∧ service.uuid.onAir <+: element.data := by
    intro element
    rw [key_of_mem_scanFilters source made member]
    exact FilterKey.selects_service_iff
  have located : ∀ element, layout.selects element = true ↔
      service.uuid.carriedBy element.adType = true ∧
        service.uuid.onAir <+: element.data.drop service.range.first :=
    fun element => selects_service_iff source (wellFormed_of_parse parsed)
  refine ⟨keyed, located, ?_, ?_⟩
  · intro same
    -- The UUID alone is a payload whose start is selected and that ends before a later range does.
    have start := (keyed ⟨AdType.serviceData16, service.uuid.onAir⟩).2
      ⟨service.uuid.carriedBy_serviceData16, List.prefix_refl _⟩
    rw [same] at start
    have short := ((located _).1 start).2.length_le
    have positive : 0 < service.uuid.onAir.length := by
      rw [ServiceUuid.length_onAir]
      cases service.uuid with
      | assigned => exact Nat.two_pos
      | full => exact Nat.succ_pos 15
    change service.uuid.onAir.length ≤
      (service.uuid.onAir.drop service.range.first).length at short
    rw [List.length_drop] at short
    omega
  · intro front element
    rw [Bool.eq_iff_iff, keyed, located, front, List.drop_zero]

theorem filters_select_same_eddystone :
    ∃ layout filter, parse "s:0-1=feaa,m:2-2=00,i:4-13".toList = .ok layout ∧
      layout.scanFilters [] [] = .ok [filter] ∧
      ∀ element, filter.key.selects element = layout.selects element := by
  have parsed : parse "s:0-1=feaa,m:2-2=00,i:4-13".toList =
      .ok ⟨some ⟨⟨2, 2, false⟩, 0⟩, some ⟨.assigned 0xFEAA, ⟨0, 1, false⟩⟩, [⟨4, 13, false⟩], [],
        none⟩ := by
    rfl
  have made : scanFilters ⟨some ⟨⟨2, 2, false⟩, 0⟩, some ⟨.assigned 0xFEAA, ⟨0, 1, false⟩⟩,
        [⟨4, 13, false⟩], [], none⟩ [] [] =
      .ok [⟨.service (.assigned 0xFEAA), [0], [0xFF], 2⟩] := by
    rfl
  exact ⟨_, _, parsed, made,
    (filters_select_same_iff parsed rfl made (List.mem_singleton_self _)).2.2.2 rfl⟩

/-- A beacon with the UUID behind two other bytes is decoded, but its filter is not keyed on it. -/
theorem filter_misses_shifted_service :
    ∃ layout filter, parse "s:2-3=feaa,i:4-5".toList = .ok layout ∧
      layout.scanFilters [] [] = .ok [filter] ∧
      layout.selects ⟨0x16, [0x01, 0x02, 0xAA, 0xFE, 0x0A, 0x0B]⟩ = true ∧
      filter.key.selects ⟨0x16, [0x01, 0x02, 0xAA, 0xFE, 0x0A, 0x0B]⟩ = false := by
  refine ⟨{ service := some ⟨.assigned 0xFEAA, ⟨2, 3, false⟩⟩, identifiers := [⟨4, 5, false⟩] },
    ⟨.service (.assigned 0xFEAA), [], [], 4⟩, rfl, rfl, by decide, by decide⟩

end Layout

end BleBeacon
