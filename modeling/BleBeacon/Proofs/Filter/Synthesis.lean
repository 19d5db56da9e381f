import BleBeacon.Filter.Synthesis
import BleBeacon.Proofs.Filter.Pattern

/-!
# How filters are made

The filters of a layout are made exactly if there is a key, the pattern of the matcher and every
pattern that is made from it are short enough, and all filters have room: one filter for each key
and each pattern, in this order.
-/

namespace BleBeacon

/-! ## Patterns -/

namespace Matcher

theorem isIBeacon_iff {matcher : Matcher} :
    matcher.isIBeacon = true ↔ matcher.expected = 0x0215 ∧ matcher.range.width = 2 := by
  rw [isIBeacon, Bool.and_eq_true, beq_iff_eq, beq_iff_eq, iBeaconTypeCode]

theorem length_drop_bytes {matcher : Matcher}
    (ordered : matcher.range.first ≤ matcher.range.last) (offset : Nat) :
    (matcher.bytes.drop (offset - matcher.range.first)).length =
      matcher.range.last + 1 - max offset matcher.range.first := by
  rw [List.length_drop, length_bytes, ByteRange.width]
  omega

/-- The pattern of a matcher ends with it, or is empty if the matcher ends in front of the offset. -/
theorem length_pattern {matcher : Matcher} {offset : Nat} {pattern : Pattern}
    (made : matcher.pattern offset = .ok pattern) :
    pattern.length = matcher.range.first + matcher.range.width - offset := by
  have positive : 0 < matcher.range.width := Nat.succ_pos _
  have count : (matcher.bytes.drop (offset - matcher.range.first)).length =
      matcher.range.width - (offset - matcher.range.first) := by
    rw [List.length_drop, length_bytes]
  have start : Pattern.empty.length = 0 := rfl
  by_cases none : matcher.bytes.drop (offset - matcher.range.first) = []
  · rw [none, List.length_nil] at count
    rw [Matcher.pattern, none] at made
    cases made
    rw [start]
    omega
  · have some := List.length_pos_iff.2 none
    rw [Pattern.length_writeAll none made, count, start]
    omega

/-- The pins of the pattern of a matcher are its bytes from the offset on. -/
theorem pinned_pattern_iff {matcher : Matcher} {offset : Nat} {pattern : Pattern}
    (made : matcher.pattern offset = .ok pattern) {index : Nat} {pin : UInt8} :
    pattern.cells[index]? = some (some pin) ↔ matcher.range.first ≤ offset + index ∧
      matcher.bytes[offset + index - matcher.range.first]? = some pin := by
  have unpinned : Pattern.empty.cells[index]? ≠ some (some pin) := by simp [Pattern.empty]
  rw [Pattern.pinned_writeAll_iff made, List.getElem?_drop, List.length_drop]
  have same (behind : matcher.range.first ≤ offset + index) :
      offset - matcher.range.first + (index - (matcher.range.first - offset)) =
        offset + index - matcher.range.first := by
    omega
  split
  · rename_i inside
    have behind : matcher.range.first ≤ offset + index := by omega
    rw [same behind, and_iff_right behind]
  · rename_i outside
    refine iff_of_false unpinned ?_
    rintro ⟨behind, present⟩
    have within := (List.getElem?_eq_some_iff.1 present).1
    omega

/-- A payload fits the pattern of a matcher exactly if it has the bytes of the matcher from the offset
on. -/
theorem fits_pattern_iff {matcher : Matcher} {offset : Nat} {pattern : Pattern}
    (made : matcher.pattern offset = .ok pattern) {payload : List UInt8} :
    pattern.Fits (payload.drop offset) ↔ ∀ position, offset ≤ position →
      matcher.range.first ≤ position → position < matcher.range.first + matcher.range.width →
        payload[position]? = matcher.bytes[position - matcher.range.first]? := by
  have width := matcher.length_bytes
  have positive : 0 < matcher.range.width := Nat.succ_pos _
  constructor
  · intro fits position behind first within
    have inside : position - matcher.range.first < matcher.bytes.length := by omega
    have pin : pattern.cells[position - offset]? =
        some (some matcher.bytes[position - matcher.range.first]) := by
      rw [pinned_pattern_iff made, Nat.add_sub_cancel' behind]
      exact ⟨first, List.getElem?_eq_getElem inside⟩
    have held := fits.pinned _ _ pin
    rwa [List.getElem?_drop, Nat.add_sub_cancel' behind,
      ← List.getElem?_eq_getElem inside] at held
  · intro held
    constructor
    case length_le =>
      rw [length_pattern made, List.length_drop]
      by_cases reaches : offset < matcher.range.first + matcher.range.width
      · -- The last byte of the matcher is in the payload.
        have inside : matcher.range.width - 1 < matcher.bytes.length := by omega
        have last := held (matcher.range.first + (matcher.range.width - 1)) (by omega) (by omega)
          (by omega)
        rw [Nat.add_sub_cancel_left, List.getElem?_eq_getElem inside] at last
        have present := (List.getElem?_eq_some_iff.1 last).1
        omega
      · omega
    case pinned =>
      intro index pin present
      obtain ⟨behind, byte⟩ := (pinned_pattern_iff made).1 present
      have inside := (List.getElem?_eq_some_iff.1 byte).1
      rw [List.getElem?_drop, held (offset + index) (by omega) behind (by omega), byte]

end Matcher

namespace Layout

/-- Where known prefixes are compared: right behind the type code of an iBeacon, or at the first
identifier of a service layout, if that is behind the UUID. -/
theorem prefixSlot?_eq_some_iff {layout : Layout} {slot : PrefixSlot} :
    layout.prefixSlot? = some slot ↔
      (layout.service = none ∧ ∃ matcher ∈ layout.matcher, matcher.isIBeacon = true ∧
        slot = ⟨matcher.range.last + 1, none⟩) ∨
      ∃ service ∈ layout.service, ∃ range ∈ layout.identifiers.head?,
        service.range.last < range.first ∧ slot = ⟨range.first, some range.width⟩ := by
  unfold prefixSlot? filterOffset
  cases layout.service with
  | none =>
      cases layout.matcher with
      | none => simp
      | some matcher => simp [@eq_comm _ slot]
  | some service =>
      cases layout.identifiers with
      | nil => simp
      | cons range ranges =>
          simp only [Nat.succ_le_iff, @eq_comm _ slot, Option.ite_none_right_eq_some,
            Option.some.injEq, Option.mem_def, List.head?_cons, exists_eq_left', reduceCtorEq,
            false_and, false_or]

theorem filterOffset_of_service {layout : Layout} {service : ServiceField}
    (source : layout.service = some service) :
    layout.filterOffset = service.range.last + 1 := by
  rw [filterOffset, source]

theorem filterKeys_of_service {layout : Layout} {service : ServiceField}
    (source : layout.service = some service) (ids : List UInt16) :
    layout.filterKeys ids = [.service service.uuid] := by
  rw [filterKeys, source]

/-- Prefixes are compared where the patterns reach. -/
theorem filterOffset_le_start {layout : Layout} {slot : PrefixSlot}
    (narrow : layout.prefixSlot? = some slot) : layout.filterOffset ≤ slot.start := by
  rcases prefixSlot?_eq_some_iff.1 narrow with
    ⟨source, _⟩ | ⟨service, source, range, _, behind, rfl⟩
  · rw [filterOffset, source]
    exact Nat.zero_le _
  · rw [filterOffset_of_service source]
    exact behind

/-- Without a matcher the pattern of the matcher is empty. -/
theorem eq_empty_or_pattern_of_basePattern {layout : Layout} {base : Pattern}
    (made : layout.basePattern = .ok base) :
    (layout.matcher = none ∧ base = .empty) ∨
      ∃ matcher, layout.matcher = some matcher ∧
        matcher.pattern layout.filterOffset = .ok base := by
  unfold basePattern at made
  cases present : layout.matcher with
  | none =>
      rw [present] at made
      exact .inl ⟨rfl, (Except.ok.inj made).symm⟩
  | some matcher =>
      rw [present] at made
      exact .inr ⟨matcher, rfl, made⟩

/-- The pins of the pattern of the matcher alone. -/
theorem pinned_basePattern_iff {layout : Layout} {base : Pattern}
    (made : layout.basePattern = .ok base) {index : Nat} {pin : UInt8} :
    base.cells[index]? = some (some pin) ↔ ∃ matcher ∈ layout.matcher,
      matcher.range.first ≤ layout.filterOffset + index ∧
        matcher.bytes[layout.filterOffset + index - matcher.range.first]? = some pin := by
  rcases eq_empty_or_pattern_of_basePattern made with ⟨none, rfl⟩ | ⟨matcher, present, made⟩
  · simp [none, Pattern.empty]
  · rw [Matcher.pinned_pattern_iff made]
    simp [present]

/-- A payload fits the pattern of the matcher alone exactly if it has the bytes of the matcher from
the offset on at which the patterns start. -/
theorem fits_basePattern_iff {layout : Layout} {base : Pattern}
    (made : layout.basePattern = .ok base) {payload : List UInt8} :
    base.Fits (payload.drop layout.filterOffset) ↔ ∀ matcher ∈ layout.matcher, ∀ position,
      layout.filterOffset ≤ position → matcher.range.first ≤ position →
        position < matcher.range.first + matcher.range.width →
          payload[position]? = matcher.bytes[position - matcher.range.first]? := by
  rcases eq_empty_or_pattern_of_basePattern made with ⟨none, rfl⟩ | ⟨matcher, present, made⟩
  · simp [none, Pattern.fits_empty]
  · rw [Matcher.fits_pattern_iff made]
    simp [present]

/-- Without prefixes, or without a place for them, the pattern of the matcher is the only one. -/
theorem patterns_of_wide {layout : Layout} {prefixes : List (List UInt8)}
    (wide : layout.prefixSlot? = none ∨ prefixes = []) (base : Pattern) :
    layout.patterns base prefixes = [.ok base] := by
  unfold patterns
  split
  · rename_i slot first others narrow
    rw [narrow] at wide
    cases wide with
    | inl none => cases none
    | inr none => cases none
  · rfl

/-- Every prefix has a pattern where there is a place for prefixes. -/
theorem patterns_of_slot {layout : Layout} {slot : PrefixSlot}
    (narrow : layout.prefixSlot? = some slot) (base : Pattern) (first : List UInt8)
    (others : List (List UInt8)) :
    layout.patterns base (first :: others) = (first :: others).map fun bytes =>
      base.writeAll (slot.start - layout.filterOffset) (slot.clip bytes) := by
  unfold patterns
  rw [narrow]

/-- Each prefix is written to a pattern where there is a place for it. -/
theorem writeAll_mem_patterns {layout : Layout} {slot : PrefixSlot}
    (narrow : layout.prefixSlot? = some slot) (base : Pattern) {bytes : List UInt8}
    {prefixes : List (List UInt8)} (listed : bytes ∈ prefixes) :
    base.writeAll (slot.start - layout.filterOffset) (slot.clip bytes) ∈
      layout.patterns base prefixes := by
  cases prefixes with
  | nil => cases listed
  | cons first others =>
      rw [patterns_of_slot narrow]
      exact List.mem_map_of_mem listed

/-- A pattern is that of the matcher, or has a prefix written to it. -/
theorem eq_base_or_writeAll_of_mem_patterns {layout : Layout} {base pattern : Pattern}
    {prefixes : List (List UInt8)} (member : .ok pattern ∈ layout.patterns base prefixes) :
    pattern = base ∨ ∃ slot, layout.prefixSlot? = some slot ∧ ∃ bytes ∈ prefixes,
      base.writeAll (slot.start - layout.filterOffset) (slot.clip bytes) = .ok pattern := by
  unfold patterns at member
  split at member
  · rename_i slot first others narrow
    exact .inr ⟨slot, narrow, List.mem_map.1 member⟩
  · exact .inl (Except.ok.inj (List.mem_singleton.1 member))

end Layout

/-! ## Filters -/

/-- Candidates are collected exactly if all of them are made and have room. -/
theorem ScanFilter.collect_eq_ok_iff {room : Nat}
    {candidates : List (Except FilterError ScanFilter)} {filters : List ScanFilter} :
    collect room candidates = .ok filters ↔
      candidates = filters.map .ok ∧ filters.length ≤ room := by
  induction candidates generalizing room filters with
  | nil =>
      rw [collect, Except.ok.injEq, eq_comm, @eq_comm _ [], List.map_eq_nil_iff]
      constructor
      · rintro rfl
        exact ⟨rfl, Nat.zero_le _⟩
      · exact And.left
  | cons candidate candidates ih =>
      rw [collect, bind_eq_ok_iff]
      cases room with
      | zero =>
          constructor
          · rintro ⟨_, _, ⟨⟩⟩
          · rintro ⟨whole, none⟩
            rw [List.length_eq_zero_iff.1 (Nat.le_zero.1 none)] at whole
            cases whole
      | succ room =>
          simp only [bind_eq_ok_iff, ih]
          constructor
          · rintro ⟨filter, rfl, rest, ⟨rfl, short⟩, ⟨⟩⟩
            exact ⟨rfl, Nat.succ_le_succ short⟩
          · rintro ⟨whole, short⟩
            cases filters with
            | nil => cases whole
            | cons filter rest =>
                obtain ⟨rfl, rfl⟩ := List.cons.inj whole
                exact ⟨filter, rfl, rest, ⟨rfl, Nat.le_of_succ_le_succ short⟩, rfl⟩

namespace Layout

theorem scanFilters_eq_ok_iff {layout : Layout} {ids : List UInt16} {prefixes : List (List UInt8)}
    {filters : List ScanFilter} :
    layout.scanFilters ids prefixes = .ok filters ↔
      layout.filterKeys ids ≠ [] ∧ ∃ base, layout.basePattern = .ok base ∧
        ((layout.filterKeys ids).flatMap fun key =>
          (layout.patterns base prefixes).map fun pattern =>
            pattern.map (ScanFilter.ofPattern key layout.filterOffset)) = filters.map .ok ∧
        filters.length ≤ ScanFilter.maxFilters := by
  simp only [scanFilters]
  split
  · rename_i unkeyed
    rw [List.isEmpty_iff] at unkeyed
    exact ⟨nofun, fun ⟨keyed, _⟩ => absurd unkeyed keyed⟩
  · rename_i keyed
    rw [List.isEmpty_iff] at keyed
    simp only [bind_eq_ok_iff, ScanFilter.collect_eq_ok_iff, ne_eq, keyed, not_false_eq_true,
      true_and]

/-- Without prefixes, or without a place for them, each key gets the pattern of the matcher. -/
theorem eq_map_of_scanFilters {layout : Layout} {ids : List UInt16}
    {prefixes : List (List UInt8)} (wide : layout.prefixSlot? = none ∨ prefixes = [])
    {filters : List ScanFilter} (made : layout.scanFilters ids prefixes = .ok filters) :
    ∃ base, layout.basePattern = .ok base ∧ filters =
      (layout.filterKeys ids).map fun key =>
        ScanFilter.ofPattern key layout.filterOffset base := by
  obtain ⟨_, base, matched, candidates, _⟩ := scanFilters_eq_ok_iff.1 made
  refine ⟨base, matched, ?_⟩
  apply (List.map_inj_right fun _ _ => Except.ok.inj (ε := FilterError)).1
  rw [← candidates, patterns_of_wide wide, List.map_map, List.map_eq_flatMap]
  rfl

/-- Made filters are those of all keys and patterns. -/
theorem mem_of_scanFilters {layout : Layout} {ids : List UInt16} {prefixes : List (List UInt8)}
    {filters : List ScanFilter} (made : layout.scanFilters ids prefixes = .ok filters) :
    ∃ base, layout.basePattern = .ok base ∧
      (∀ candidate ∈ layout.patterns base prefixes, ∃ pattern, candidate = .ok pattern) ∧
      ∀ filter, filter ∈ filters ↔ ∃ key ∈ layout.filterKeys ids, ∃ pattern,
        .ok pattern ∈ layout.patterns base prefixes ∧
          ScanFilter.ofPattern key layout.filterOffset pattern = filter := by
  obtain ⟨keyed, base, matched, candidates, _⟩ := scanFilters_eq_ok_iff.1 made
  have listed : ∀ result, result ∈ filters.map (Except.ok (ε := FilterError)) ↔
      ∃ key ∈ layout.filterKeys ids, ∃ candidate ∈ layout.patterns base prefixes,
        candidate.map (ScanFilter.ofPattern key layout.filterOffset) = result := by
    intro result
    simp only [← candidates, List.mem_flatMap, List.mem_map]
  refine ⟨base, matched, ?_, ?_⟩
  · intro candidate member
    obtain ⟨key, head⟩ := List.exists_mem_of_ne_nil _ keyed
    obtain ⟨filter, _, equal⟩ := List.mem_map.1 ((listed _).2 ⟨key, head, candidate, member, rfl⟩)
    obtain ⟨pattern, result, _⟩ := map_eq_ok_iff.1 equal.symm
    exact ⟨pattern, result⟩
  · intro filter
    have same : filter ∈ filters ↔
        Except.ok filter ∈ filters.map (Except.ok (ε := FilterError)) := by
      simp
    rw [same, listed]
    simp only [map_eq_ok_iff]
    constructor
    · rintro ⟨key, keyed, _, member, pattern, rfl, equal⟩
      exact ⟨key, keyed, pattern, member, equal⟩
    · rintro ⟨key, keyed, pattern, member, equal⟩
      exact ⟨key, keyed, _, member, pattern, rfl, equal⟩

end Layout

end BleBeacon
