import BleBeacon.Proofs.Filter.Synthesis
import BleBeacon.Proofs.Layout.Bounds
import BleBeacon.Proofs.Layout.Slices

/-!
# Filters within capacity

The filters of a layout are made exactly if what they compare fits the length of a pattern and their
number fits the radio, and then none is left out: there is one filter for each key and, where prefixes
narrow the layout, for each prefix. Both limits are counted differently for the two sources, so there
is one rule for each way to make filters. What a filter compares is said position by position, without
the order in which it is written: known bytes where they are, elsewhere the bytes of the matcher.
-/

namespace BleBeacon

theorem Matcher.exists_pattern_iff {matcher : Matcher}
    (ordered : matcher.range.first ≤ matcher.range.last) {offset : Nat} :
    (∃ pattern, matcher.pattern offset = .ok pattern) ↔
      matcher.range.last < offset + Pattern.maxLength := by
  have length := length_drop_bytes ordered offset
  rw [Matcher.pattern, Pattern.exists_writeAll_iff, ← List.length_eq_zero_iff, length]
  have positive : 0 < Pattern.maxLength := by decide
  omega

namespace Layout

variable {layout : Layout}

/-! ## What is compared -/

/-- The byte that a filter compares at a payload offset: one of the known bytes, which start at an
offset of their own, or else one of the matcher. -/
def comparedByte? (layout : Layout) (start : Nat) (known : List UInt8) (position : Nat) :
    Option UInt8 :=
  if start ≤ position ∧ position < start + known.length then
    known[position - start]?
  else
    layout.matcher.bind fun matcher =>
      if matcher.range.first ≤ position then matcher.bytes[position - matcher.range.first]? else none

/-- The offset behind everything that a filter compares. -/
def comparedEnd (layout : Layout) (start : Nat) (known : List UInt8) : Nat :=
  max (layout.matcher.elim 0 fun matcher => matcher.range.last + 1)
    (if known = [] then 0 else start + known.length)

/-- The pattern of a filter, from behind the service UUID or from the first payload byte on. -/
def comparedPattern (layout : Layout) (start : Nat) (known : List UInt8) : Pattern where
  cells := (List.range' layout.filterOffset
    (layout.comparedEnd start known - layout.filterOffset)).map (layout.comparedByte? start known)

/-- The filter with a key that compares the matcher and known bytes. -/
def filterFor (layout : Layout) (key : FilterKey) (start : Nat) (known : List UInt8) : ScanFilter :=
  .ofPattern key layout.filterOffset (layout.comparedPattern start known)

theorem comparedByte?_eq_some_iff {start : Nat} {known : List UInt8} {position : Nat}
    {byte : UInt8} :
    layout.comparedByte? start known position = some byte ↔
      if start ≤ position ∧ position < start + known.length then
        known[position - start]? = some byte
      else
        ∃ matcher ∈ layout.matcher, matcher.range.first ≤ position ∧
          matcher.bytes[position - matcher.range.first]? = some byte := by
  unfold comparedByte?
  split
  · rfl
  · simp [Option.bind_eq_some_iff]

/-- Nothing is compared behind the end. -/
theorem lt_comparedEnd (bounds : layout.WellFormed) {start : Nat} {known : List UInt8}
    {position : Nat} {byte : UInt8}
    (compared : layout.comparedByte? start known position = some byte) :
    position < layout.comparedEnd start known := by
  rw [comparedByte?_eq_some_iff] at compared
  unfold comparedEnd
  split at compared
  · rename_i inside
    have some : known ≠ [] := List.ne_nil_of_length_pos (by omega)
    rw [if_neg some]
    exact Nat.lt_of_lt_of_le inside.2 (Nat.le_max_right _ _)
  · obtain ⟨matcher, present, first, held⟩ := compared
    have inside := (List.getElem?_eq_some_iff.1 held).1
    have width := ByteRange.first_add_width (bounds.matcher matcher present).1.ordered
    rw [matcher.length_bytes] at inside
    rw [Option.mem_def.1 present, Option.elim_some]
    exact Nat.lt_of_lt_of_le (by omega) (Nat.le_max_left _ _)

theorem length_comparedPattern (start : Nat) (known : List UInt8) :
    (layout.comparedPattern start known).length =
      layout.comparedEnd start known - layout.filterOffset := by
  simp [comparedPattern, Pattern.length]

variable (bounds : layout.WellFormed)
include bounds

theorem pinned_comparedPattern_iff {start : Nat} {known : List UInt8} {index : Nat} {pin : UInt8} :
    (layout.comparedPattern start known).cells[index]? = some (some pin) ↔
      layout.comparedByte? start known (layout.filterOffset + index) = some pin := by
  rw [comparedPattern, List.getElem?_map]
  by_cases inside : index < layout.comparedEnd start known - layout.filterOffset
  · rw [List.getElem?_range' inside, Nat.one_mul, Option.map_some, Option.some.injEq]
  · rw [List.getElem?_eq_none (by simpa using inside)]
    refine iff_of_false nofun fun compared => inside ?_
    have within := lt_comparedEnd bounds compared
    omega

/-- The pattern of the matcher ends behind it. -/
theorem length_basePattern {base : Pattern} (matched : layout.basePattern = .ok base) :
    base.length = (layout.matcher.elim 0 fun matcher => matcher.range.last + 1) -
      layout.filterOffset := by
  rcases eq_empty_or_pattern_of_basePattern matched with ⟨none, rfl⟩ | ⟨matcher, present, made⟩
  · rw [none, Option.elim_none, Nat.zero_sub]
    rfl
  · rw [Matcher.length_pattern made, present, Option.elim_some,
      ByteRange.first_add_width (bounds.matcher matcher present).1.ordered]

theorem exists_basePattern_iff :
    (∃ base, layout.basePattern = .ok base) ↔ ∀ matcher ∈ layout.matcher,
      matcher.range.last < layout.filterOffset + Pattern.maxLength := by
  unfold basePattern
  cases present : layout.matcher with
  | none => simp
  | some matcher =>
      rw [Matcher.exists_pattern_iff (bounds.matcher matcher present).1.ordered]
      simp

/-- Writing known bytes to the pattern of the matcher makes the pattern that compares both. -/
theorem eq_comparedPattern_of_writeAll {base : Pattern} (matched : layout.basePattern = .ok base)
    {start : Nat} (behind : layout.filterOffset ≤ start) {known : List UInt8} {final : Pattern}
    (written : base.writeAll (start - layout.filterOffset) known = .ok final) :
    final = layout.comparedPattern start known := by
  apply Pattern.ext_pins
  · have length := length_basePattern bounds matched
    rw [length_comparedPattern, comparedEnd]
    by_cases none : known = []
    · rw [none] at written
      cases written
      rw [if_pos none, length, Nat.max_zero]
    · rw [if_neg none, Pattern.length_writeAll none written, length]
      omega
  · intro index pin
    rw [pinned_comparedPattern_iff bounds, comparedByte?_eq_some_iff,
      Pattern.pinned_writeAll_iff written, pinned_basePattern_iff matched]
    have window : (start - layout.filterOffset ≤ index ∧
        index < start - layout.filterOffset + known.length) ↔
          (start ≤ layout.filterOffset + index ∧
            layout.filterOffset + index < start + known.length) := by
      omega
    have offset : index - (start - layout.filterOffset) =
        layout.filterOffset + index - start := by
      omega
    simp only [window, offset]

omit bounds

/-! ## The list of filters -/

/-- Filters whose patterns are all made are one for each key and pattern, if they have room. -/
theorem scanFilters_eq_ok_iff_of_patterns {ids : List UInt16} {prefixes : List (List UInt8)}
    {base : Pattern} (matched : layout.basePattern = .ok base) {made : List Pattern}
    (patterned : layout.patterns base prefixes = made.map .ok) {filters : List ScanFilter} :
    layout.scanFilters ids prefixes = .ok filters ↔
      layout.filterKeys ids ≠ [] ∧
        (layout.filterKeys ids).length * made.length ≤ ScanFilter.maxFilters ∧
        filters = (layout.filterKeys ids).flatMap fun key =>
          made.map (ScanFilter.ofPattern key layout.filterOffset) := by
  have candidates : ((layout.filterKeys ids).flatMap fun key =>
      (layout.patterns base prefixes).map fun pattern =>
        pattern.map (ScanFilter.ofPattern key layout.filterOffset)) =
      ((layout.filterKeys ids).flatMap fun key =>
        made.map (ScanFilter.ofPattern key layout.filterOffset)).map .ok := by
    rw [patterned, List.map_flatMap]
    simp only [List.map_map]
    rfl
  have count : ((layout.filterKeys ids).flatMap fun key =>
      made.map (ScanFilter.ofPattern key layout.filterOffset)).length =
        (layout.filterKeys ids).length * made.length := by
    simp [List.length_flatMap]
  rw [scanFilters_eq_ok_iff]
  refine and_congr_right fun keyed => ?_
  constructor
  · rintro ⟨other, otherMatched, listed, room⟩
    cases matched.symm.trans otherMatched
    rw [candidates] at listed
    have same := (List.map_inj_right fun _ _ => Except.ok.inj (ε := FilterError)).1 listed
    exact ⟨by rwa [← count, same], same.symm⟩
  · rintro ⟨room, rfl⟩
    exact ⟨base, matched, candidates, by rwa [count]⟩

include bounds

/-- Known bytes fit a pattern exactly if they can be written to that of the matcher. -/
theorem writeAll_basePattern_eq_ok_iff {base : Pattern} (matched : layout.basePattern = .ok base)
    {start : Nat} (behind : layout.filterOffset ≤ start) {known : List UInt8} :
    base.writeAll (start - layout.filterOffset) known = .ok (layout.comparedPattern start known) ↔
      known = [] ∨ start - layout.filterOffset + known.length ≤ Pattern.maxLength := by
  rw [← @Pattern.exists_writeAll_iff base]
  constructor
  · intro written
    exact ⟨_, written⟩
  · rintro ⟨final, written⟩
    rw [written, eq_comparedPattern_of_writeAll bounds matched behind written]

/-- Where every pattern is that of the matcher with some known bytes written to it, the filters are
made exactly if all of them fit. -/
theorem scanFilters_eq_ok_iff_of_additions {ids : List UInt16} {prefixes : List (List UInt8)}
    {additions : List (Nat × List UInt8)}
    (behind : ∀ addition ∈ additions, layout.filterOffset ≤ addition.1)
    (patterned : ∀ base, layout.patterns base prefixes = additions.map fun addition =>
      base.writeAll (addition.1 - layout.filterOffset) addition.2) {filters : List ScanFilter} :
    layout.scanFilters ids prefixes = .ok filters ↔
      layout.filterKeys ids ≠ [] ∧
        (∀ matcher ∈ layout.matcher,
          matcher.range.last < layout.filterOffset + Pattern.maxLength) ∧
        (∀ addition ∈ additions, addition.2 = [] ∨
          addition.1 - layout.filterOffset + addition.2.length ≤ Pattern.maxLength) ∧
        (layout.filterKeys ids).length * additions.length ≤ ScanFilter.maxFilters ∧
        filters = (layout.filterKeys ids).flatMap fun key => additions.map fun addition =>
          layout.filterFor key addition.1 addition.2 := by
  have made : ∀ {base}, layout.basePattern = .ok base →
      (∀ addition ∈ additions, addition.2 = [] ∨
        addition.1 - layout.filterOffset + addition.2.length ≤ Pattern.maxLength) →
      (layout.scanFilters ids prefixes = .ok filters ↔ layout.filterKeys ids ≠ [] ∧
        (layout.filterKeys ids).length * additions.length ≤ ScanFilter.maxFilters ∧
        filters = (layout.filterKeys ids).flatMap fun key => additions.map fun addition =>
          layout.filterFor key addition.1 addition.2) := by
    intro base matched short
    have compared : layout.patterns base prefixes = (additions.map fun addition =>
        layout.comparedPattern addition.1 addition.2).map .ok := by
      rw [patterned, List.map_map]
      exact List.map_congr_left fun addition member =>
        (writeAll_basePattern_eq_ok_iff bounds matched (behind addition member)).2
          (short addition member)
    simp only [scanFilters_eq_ok_iff_of_patterns matched compared, List.length_map, List.map_map]
    rfl
  rw [← exists_basePattern_iff bounds]
  constructor
  · intro result
    obtain ⟨base, matched, candidates, _⟩ := mem_of_scanFilters result
    rw [patterned, List.forall_mem_map] at candidates
    have short := fun addition member =>
      Pattern.exists_writeAll_iff.1 (candidates addition member)
    obtain ⟨keyed, room, listed⟩ := (made matched short).1 result
    exact ⟨keyed, ⟨base, matched⟩, short, room, listed⟩
  · rintro ⟨keyed, ⟨base, matched⟩, short, room, listed⟩
    exact (made matched short).2 ⟨keyed, room, listed⟩

/-- Without prefixes, or without a place for them, each key has a filter that compares the matcher. -/
theorem scanFilters_eq_ok_iff_of_wide {ids : List UInt16} {prefixes : List (List UInt8)}
    (wide : layout.prefixSlot? = none ∨ prefixes = []) {filters : List ScanFilter} :
    layout.scanFilters ids prefixes = .ok filters ↔
      layout.filterKeys ids ≠ [] ∧
        (∀ matcher ∈ layout.matcher,
          matcher.range.last < layout.filterOffset + Pattern.maxLength) ∧
        (layout.filterKeys ids).length ≤ ScanFilter.maxFilters ∧
        filters = (layout.filterKeys ids).map fun key =>
          layout.filterFor key layout.filterOffset [] := by
  have behind : ∀ addition ∈ [(layout.filterOffset, ([] : List UInt8))],
      layout.filterOffset ≤ addition.1 := by simp
  rw [scanFilters_eq_ok_iff_of_additions bounds behind (patterns_of_wide wide)]
  simp [List.map_eq_flatMap]

/-- Where there is a place for prefixes, each key has a filter for each prefix. -/
theorem scanFilters_eq_ok_iff_of_slot {ids : List UInt16} {prefixes : List (List UInt8)}
    {slot : PrefixSlot} (narrow : layout.prefixSlot? = some slot) (some : prefixes ≠ [])
    {filters : List ScanFilter} :
    layout.scanFilters ids prefixes = .ok filters ↔
      layout.filterKeys ids ≠ [] ∧
        (∀ matcher ∈ layout.matcher,
          matcher.range.last < layout.filterOffset + Pattern.maxLength) ∧
        (∀ bytes ∈ prefixes, slot.clip bytes = [] ∨
          slot.start - layout.filterOffset + (slot.clip bytes).length ≤ Pattern.maxLength) ∧
        (layout.filterKeys ids).length * prefixes.length ≤ ScanFilter.maxFilters ∧
        filters = (layout.filterKeys ids).flatMap fun key => prefixes.map fun bytes =>
          layout.filterFor key slot.start (slot.clip bytes) := by
  obtain ⟨first, others, rfl⟩ := List.exists_cons_of_ne_nil some
  have patterned : ∀ base, layout.patterns base (first :: others) =
      ((first :: others).map fun bytes => (slot.start, slot.clip bytes)).map fun addition =>
        base.writeAll (addition.1 - layout.filterOffset) addition.2 := by
    intro base
    rw [patterns_of_slot narrow, List.map_map]
    rfl
  have behind : ∀ addition ∈ (first :: others).map fun bytes => (slot.start, slot.clip bytes),
      layout.filterOffset ≤ addition.1 :=
    List.forall_mem_map.2 fun _ _ => filterOffset_le_start narrow
  simp only [scanFilters_eq_ok_iff_of_additions bounds behind patterned, List.forall_mem_map,
    List.length_map, List.map_map, Function.comp_def]

omit bounds

/-! ## Capacities -/

/-- The ways in which the filters of a layout are made, and when they are within the capacities of 31
bytes and 16 filters. -/
inductive Makes (layout : Layout) (ids : List UInt16) (prefixes : List (List UInt8)) :
    List ScanFilter → Prop
  | manufacturer :
      layout.service = none →
      (∀ matcher ∈ layout.matcher, ¬(matcher.expected = 0x0215 ∧ matcher.range.width = 2)) ∨
        prefixes = [] →
      ids ≠ [] → ids.length ≤ 16 → (∀ matcher ∈ layout.matcher, matcher.range.last ≤ 30) →
      Makes layout ids prefixes (ids.map fun id => layout.filterFor (.manufacturer id) 0 [])
  | iBeacon {matcher : Matcher} :
      layout.service = none → matcher ∈ layout.matcher →
      matcher.expected = 0x0215 → matcher.range.width = 2 → prefixes ≠ [] →
      ids ≠ [] → ids.length * prefixes.length ≤ 16 → matcher.range.last ≤ 30 →
      (∀ bytes ∈ prefixes, bytes ≠ [] → matcher.range.last + bytes.length ≤ 30) →
      Makes layout ids prefixes (ids.flatMap fun id => prefixes.map fun bytes =>
        layout.filterFor (.manufacturer id) (matcher.range.last + 1) bytes)
  | service {service : ServiceField} :
      service ∈ layout.service →
      (∀ range ∈ layout.identifiers.head?, range.first < service.range.last + 1) ∨
        prefixes = [] →
      (∀ matcher ∈ layout.matcher, matcher.range.last < service.range.last + 1 + 31) →
      Makes layout ids prefixes
        [layout.filterFor (.service service.uuid) (service.range.last + 1) []]
  | narrowedService {service : ServiceField} {range : ByteRange} :
      service ∈ layout.service → range ∈ layout.identifiers.head? →
      service.range.last + 1 ≤ range.first → prefixes ≠ [] → prefixes.length ≤ 16 →
      (∀ matcher ∈ layout.matcher, matcher.range.last < service.range.last + 1 + 31) →
      (∀ bytes ∈ prefixes, bytes ≠ [] →
        range.first - (service.range.last + 1) + min bytes.length range.width ≤ 31) →
      Makes layout ids prefixes (prefixes.map fun bytes =>
        layout.filterFor (.service service.uuid) range.first (bytes.take range.width))

/-- A manufacturer layout has no place for prefixes unless it is an iBeacon. -/
theorem prefixSlot?_eq_none_iff_of_manufacturer (source : layout.service = none) :
    layout.prefixSlot? = none ↔ ∀ matcher ∈ layout.matcher,
      ¬(matcher.expected = 0x0215 ∧ matcher.range.width = 2) := by
  unfold prefixSlot?
  rw [source]
  cases layout.matcher with
  | none => simp
  | some matcher => simp [← Matcher.isIBeacon_iff]

/-- A service layout has no place for prefixes unless its first identifier is behind the UUID. -/
theorem prefixSlot?_eq_none_iff_of_service {service : ServiceField}
    (source : layout.service = some service) :
    layout.prefixSlot? = none ↔ ∀ range ∈ layout.identifiers.head?,
      range.first < service.range.last + 1 := by
  unfold prefixSlot?
  rw [filterOffset_of_service source, source]
  cases layout.identifiers with
  | nil => simp
  | cons range ranges => simp

theorem filterOffset_of_manufacturer (source : layout.service = none) :
    layout.filterOffset = 0 := by
  rw [filterOffset, source]

theorem filterKeys_of_manufacturer (source : layout.service = none) (ids : List UInt16) :
    layout.filterKeys ids = ids.map .manufacturer := by
  rw [filterKeys, source]

section Rules

variable (bounds : layout.WellFormed) {ids : List UInt16} {prefixes : List (List UInt8)}
  {filters : List ScanFilter}

include bounds

theorem scanFilters_eq_ok_iff_of_manufacturer (source : layout.service = none)
    (wide : layout.prefixSlot? = none ∨ prefixes = []) :
    layout.scanFilters ids prefixes = .ok filters ↔
      ids ≠ [] ∧ (∀ matcher ∈ layout.matcher, matcher.range.last ≤ 30) ∧ ids.length ≤ 16 ∧
        filters = ids.map fun id => layout.filterFor (.manufacturer id) 0 [] := by
  rw [scanFilters_eq_ok_iff_of_wide bounds wide, filterKeys_of_manufacturer source,
    filterOffset_of_manufacturer source, Ne, List.map_eq_nil_iff, List.length_map, List.map_map,
    Nat.zero_add]
  simp only [← Nat.lt_succ_iff]
  rfl

theorem scanFilters_eq_ok_iff_of_iBeacon (source : layout.service = none) {matcher : Matcher}
    (present : matcher ∈ layout.matcher) (code : matcher.expected = 0x0215)
    (width : matcher.range.width = 2) (some : prefixes ≠ []) :
    layout.scanFilters ids prefixes = .ok filters ↔
      ids ≠ [] ∧ matcher.range.last ≤ 30 ∧
        (∀ bytes ∈ prefixes, bytes ≠ [] → matcher.range.last + bytes.length ≤ 30) ∧
        ids.length * prefixes.length ≤ 16 ∧
        filters = ids.flatMap fun id => prefixes.map fun bytes =>
          layout.filterFor (.manufacturer id) (matcher.range.last + 1) bytes := by
  have slot : layout.prefixSlot? = .some ⟨matcher.range.last + 1, none⟩ :=
    prefixSlot?_eq_some_iff.2
      (.inl ⟨source, matcher, present, Matcher.isIBeacon_iff.2 ⟨code, width⟩, rfl⟩)
  have reach : (∀ other ∈ layout.matcher, other.range.last < 0 + Pattern.maxLength) ↔
      matcher.range.last ≤ 30 := by
    rw [Option.mem_def.1 present]
    simp [Pattern.maxLength, Nat.lt_succ_iff]
  have short : ∀ bytes : List UInt8,
      bytes = [] ∨ matcher.range.last + 1 - 0 + bytes.length ≤ Pattern.maxLength ↔
        (bytes ≠ [] → matcher.range.last + bytes.length ≤ 30) := by
    intro bytes
    rw [or_iff_not_imp_left, Pattern.maxLength]
    exact imp_congr_right fun _ => by omega
  rw [scanFilters_eq_ok_iff_of_slot bounds slot some, filterKeys_of_manufacturer source,
    filterOffset_of_manufacturer source, Ne, List.map_eq_nil_iff, List.length_map,
    List.flatMap_map, reach]
  simp only [PrefixSlot.clip, short]
  rfl

theorem scanFilters_eq_ok_iff_of_service {service : ServiceField}
    (source : layout.service = some service)
    (wide : layout.prefixSlot? = none ∨ prefixes = []) :
    layout.scanFilters ids prefixes = .ok filters ↔
      (∀ matcher ∈ layout.matcher, matcher.range.last < service.range.last + 1 + 31) ∧
        filters = [layout.filterFor (.service service.uuid) (service.range.last + 1) []] := by
  rw [scanFilters_eq_ok_iff_of_wide bounds wide, filterKeys_of_service source,
    filterOffset_of_service source]
  simp [ScanFilter.maxFilters, Pattern.maxLength]

theorem scanFilters_eq_ok_iff_of_narrowedService {service : ServiceField}
    (source : layout.service = some service) {range : ByteRange}
    (head : range ∈ layout.identifiers.head?) (behind : service.range.last + 1 ≤ range.first)
    (some : prefixes ≠ []) :
    layout.scanFilters ids prefixes = .ok filters ↔
      (∀ matcher ∈ layout.matcher, matcher.range.last < service.range.last + 1 + 31) ∧
        (∀ bytes ∈ prefixes, bytes ≠ [] →
          range.first - (service.range.last + 1) + min bytes.length range.width ≤ 31) ∧
        prefixes.length ≤ 16 ∧
        filters = prefixes.map fun bytes =>
          layout.filterFor (.service service.uuid) range.first (bytes.take range.width) := by
  have slot : layout.prefixSlot? = .some ⟨range.first, range.width⟩ :=
    prefixSlot?_eq_some_iff.2 (.inr ⟨service, source, range, head, behind, rfl⟩)
  have short : ∀ bytes : List UInt8, bytes.take range.width = [] ∨
      range.first - (service.range.last + 1) + (bytes.take range.width).length ≤
        Pattern.maxLength ↔
      (bytes ≠ [] →
        range.first - (service.range.last + 1) + min bytes.length range.width ≤ 31) := by
    intro bytes
    have positive : range.width ≠ 0 := Nat.ne_of_gt range.width_pos
    rw [List.take_eq_nil_iff, or_iff_right positive, or_iff_not_imp_left, List.length_take,
      Nat.min_comm]
    rfl
  rw [scanFilters_eq_ok_iff_of_slot bounds slot some, filterKeys_of_service source,
    filterOffset_of_service source]
  simp only [PrefixSlot.clip, short, List.flatMap_singleton, List.length_singleton, Nat.one_mul]
  simp [ScanFilter.maxFilters, Pattern.maxLength]

end Rules

/-- The filters of a layout are made exactly within the capacities, and then they are all there: for
each identifier in order, and for each prefix in order where prefixes narrow the layout. -/
theorem scanFilters_eq_ok_iff_makes {text : List Char} (parsed : parse text = .ok layout)
    {ids : List UInt16} {prefixes : List (List UInt8)} {filters : List ScanFilter} :
    layout.scanFilters ids prefixes = .ok filters ↔ layout.Makes ids prefixes filters := by
  have bounds := wellFormed_of_parse parsed
  constructor
  · intro made
    by_cases wide : layout.prefixSlot? = none ∨ prefixes = []
    · cases source : layout.service with
      | none =>
          obtain ⟨keyed, reach, room, rfl⟩ :=
            (scanFilters_eq_ok_iff_of_manufacturer bounds source wide).1 made
          rw [prefixSlot?_eq_none_iff_of_manufacturer source] at wide
          exact .manufacturer source wide keyed room reach
      | some service =>
          obtain ⟨reach, rfl⟩ := (scanFilters_eq_ok_iff_of_service bounds source wide).1 made
          rw [prefixSlot?_eq_none_iff_of_service source] at wide
          exact .service source wide reach
    · obtain ⟨place, some⟩ := not_or.1 wide
      obtain ⟨slot, narrow⟩ := Option.ne_none_iff_exists'.1 place
      rcases prefixSlot?_eq_some_iff.1 narrow with
        ⟨source, matcher, present, iBeacon, rfl⟩ | ⟨service, source, range, head, behind, rfl⟩
      · obtain ⟨code, width⟩ := Matcher.isIBeacon_iff.1 iBeacon
        obtain ⟨keyed, reach, short, room, rfl⟩ :=
          (scanFilters_eq_ok_iff_of_iBeacon bounds source present code width some).1 made
        exact .iBeacon source present code width some keyed room reach short
      · obtain ⟨reach, short, room, rfl⟩ :=
          (scanFilters_eq_ok_iff_of_narrowedService bounds source head behind some).1 made
        exact .narrowedService source head behind some room reach short
  · intro makes
    cases makes with
    | manufacturer source wide keyed room reach =>
        rw [← prefixSlot?_eq_none_iff_of_manufacturer source] at wide
        exact (scanFilters_eq_ok_iff_of_manufacturer bounds source wide).2
          ⟨keyed, reach, room, rfl⟩
    | iBeacon source present code width some keyed room reach short =>
        exact (scanFilters_eq_ok_iff_of_iBeacon bounds source present code width some).2
          ⟨keyed, reach, short, room, rfl⟩
    | service source wide reach =>
        rw [← prefixSlot?_eq_none_iff_of_service source] at wide
        exact (scanFilters_eq_ok_iff_of_service bounds source wide).2 ⟨reach, rfl⟩
    | narrowedService source head behind some room reach short =>
        exact (scanFilters_eq_ok_iff_of_narrowedService bounds source head behind some).2
          ⟨reach, short, room, rfl⟩

/-- Two identifiers and two prefixes make four filters, and a prefix of 28 bytes has no room behind the
type code. -/
theorem scanFilters_eq_ok_iff_makes_iBeacon :
    ∃ layout, parse "m:2-3=0215,i:4-19".toList = .ok layout ∧
      layout.scanFilters [0x004C, 0x0118] [[0xAB], [0xCD, 0xEF]] = .ok
        [⟨.manufacturer 0x004C, [0, 0, 2, 0x15, 0xAB], [0, 0, 0xFF, 0xFF, 0xFF], 0⟩,
          ⟨.manufacturer 0x004C, [0, 0, 2, 0x15, 0xCD, 0xEF], [0, 0, 0xFF, 0xFF, 0xFF, 0xFF], 0⟩,
          ⟨.manufacturer 0x0118, [0, 0, 2, 0x15, 0xAB], [0, 0, 0xFF, 0xFF, 0xFF], 0⟩,
          ⟨.manufacturer 0x0118, [0, 0, 2, 0x15, 0xCD, 0xEF], [0, 0, 0xFF, 0xFF, 0xFF, 0xFF],
            0⟩] ∧
      ∀ filters, layout.scanFilters [0x004C] [List.replicate 28 0] ≠ .ok filters := by
  have parsed : parse "m:2-3=0215,i:4-19".toList =
      .ok { matcher := some ⟨⟨2, 3, false⟩, 0x0215⟩, identifiers := [⟨4, 19, false⟩] } := by
    rfl
  refine ⟨_, parsed, (scanFilters_eq_ok_iff_makes parsed).2 ?_, fun filters made => ?_⟩
  · exact @Makes.iBeacon _ [0x004C, 0x0118] [[0xAB], [0xCD, 0xEF]] ⟨⟨2, 3, false⟩, 0x0215⟩ rfl rfl rfl
      rfl (by decide) (by decide) (by decide) (by decide) (by decide)
  · cases (scanFilters_eq_ok_iff_makes parsed).1 made with
    | manufacturer _ wide => simp [ByteRange.width] at wide
    | iBeacon _ present _ _ _ _ _ _ short =>
        cases present
        exact absurd (short _ (List.mem_singleton_self _) (by decide)) (by decide)
    | service source | narrowedService source => cases source

end Layout

end BleBeacon
