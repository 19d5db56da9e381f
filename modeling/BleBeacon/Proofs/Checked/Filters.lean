import BleBeacon.Proofs.Checked.Arrays
import BleBeacon.Proofs.Checked.Reading
import BleBeacon.Proofs.Filter.Synthesis

/-!
# Checked filters

The scan filters of a layout, made in checked operations: arrays are set byte by byte, positions in
the payload are turned into indices by differences, and a filter takes room as soon as it is made.
Within the bounds of a layout this gives the filters, or the error, of the unchecked synthesis.
-/

namespace BleBeacon

/-! ## Pushing filters -/

namespace ScanFilter

def push (filters : List ScanFilter) (filter : ScanFilter) :
    Except FilterError (List ScanFilter) :=
  if filters.length < maxFilters then .ok (filters ++ [filter]) else .error .tooManyFilters

/-- Pushes each candidate as soon as it is made. -/
def pushAll (filters : List ScanFilter) (candidates : List (Except FilterError ScanFilter)) :
    Except FilterError (List ScanFilter) :=
  candidates.foldlM (fun filters candidate => candidate >>= push filters) filters

theorem pushAll_cons (filters : List ScanFilter) (candidate : Except FilterError ScanFilter)
    (candidates : List (Except FilterError ScanFilter)) :
    pushAll filters (candidate :: candidates) =
      candidate >>= push filters >>= (pushAll · candidates) :=
  List.foldlM_cons

theorem pushAll_singleton (filters : List ScanFilter) (candidate : Except FilterError ScanFilter) :
    pushAll filters [candidate] = candidate >>= push filters := by
  rw [pushAll_cons]
  exact bind_pure _

/-- Pushing candidates one by one is collecting them in the room behind the other filters. -/
theorem pushAll_eq_collect {filters : List ScanFilter} {room : Nat}
    (capacity : filters.length + room = maxFilters)
    (candidates : List (Except FilterError ScanFilter)) :
    pushAll filters candidates = (collect room candidates).map (filters ++ ·) := by
  induction candidates generalizing filters room with
  | nil =>
      rw [collect, Except.map, List.append_nil]
      rfl
  | cons candidate candidates ih =>
      rw [pushAll_cons, collect]
      cases candidate with
      | error fault => rfl
      | ok filter =>
          change (push filters filter >>= (pushAll · candidates)) = _
          cases room with
          | zero =>
              rw [push, if_neg (by omega)]
              rfl
          | succ room =>
              have longer : (filters ++ [filter]).length = filters.length + 1 := List.length_append
              have remaining : (filters ++ [filter]).length + room = maxFilters := by omega
              rw [push, if_pos (by omega)]
              change pushAll (filters ++ [filter]) candidates =
                Except.map (filters ++ ·) (collect room candidates >>= fun others =>
                  .ok (filter :: others))
              rw [ih remaining]
              cases collect room candidates with
              | error fault => rfl
              | ok others => exact congrArg Except.ok (List.append_assoc filters [filter] others)

/-- A loop that pushes the candidates of each item in turn pushes all of them in this order. -/
theorem foldlM_eq_pushAll {α : Type}
    {step : List ScanFilter → α → ExceptT FilterError Checked (List ScanFilter)}
    {candidates : α → List (Except FilterError ScanFilter)}
    (each : ∀ filters item,
      step filters item = Checked.ofExcept (pushAll filters (candidates item)))
    (items : List α) (filters : List ScanFilter) :
    items.foldlM step filters = Checked.ofExcept (pushAll filters (items.flatMap candidates)) := by
  induction items generalizing filters with
  | nil => rfl
  | cons item items ih =>
      have whole : pushAll filters (candidates item ++ items.flatMap candidates) =
          pushAll filters (candidates item) >>= (pushAll · (items.flatMap candidates)) :=
        List.foldlM_append
      rw [List.foldlM_cons, each, List.flatMap_cons, whole]
      simp only [ih, Checked.ofExcept_bind]

end ScanFilter

/-! ## The pattern of a matcher -/

namespace Matcher

def isIBeaconChecked (matcher : Matcher) : Checked Bool :=
  if matcher.expected = iBeaconTypeCode then
    return (← matcher.range.widthChecked) == 2
  else
    .ok false

theorem isIBeaconChecked_eq {matcher : Matcher}
    (ordered : matcher.range.first ≤ matcher.range.last) :
    matcher.isIBeaconChecked = .ok matcher.isIBeacon := by
  unfold isIBeaconChecked isIBeacon
  split
  · rename_i code
    rw [ByteRange.widthChecked_eq ordered, beq_iff_eq.2 code]
    rfl
  · rename_i other
    rw [beq_eq_false_iff_ne.2 other]
    rfl

/-- Sets the byte of a matcher at a payload position. -/
def setPosition (matcher : Matcher) (offset : Nat) (value : List UInt8) (arrays : FilterArrays)
    (position : Nat) : ExceptT FilterError Checked FilterArrays := do
  let index ← Checked.subtract position offset
  let byte ← (Checked.get value (← Checked.subtract position matcher.range.first) : Checked UInt8)
  arrays.setByte index byte

/-- The arrays of a matcher from a payload offset on, empty if it ends before the offset. -/
def arraysChecked (matcher : Matcher) (offset : Nat) :
    ExceptT FilterError Checked FilterArrays := do
  if matcher.range.last < offset then
    return .empty
  else
    let value ← matcher.bytesChecked
    let first := max offset matcher.range.first
    (List.range' first (matcher.range.last + 1 - first)).foldlM (matcher.setPosition offset value)
      .empty

theorem setPosition_arrays {matcher : Matcher} {offset position : Nat} (behind : offset ≤ position)
    (inside : matcher.range.first ≤ position) {value : List UInt8} {byte : UInt8}
    (present : value[position - matcher.range.first]? = some byte) (pattern : Pattern) :
    matcher.setPosition offset value pattern.arrays position =
      Checked.ofExcept ((pattern.write (position - offset) byte).map Pattern.arrays) := by
  rw [setPosition, Checked.subtract_of_le behind, Checked.subtract_of_le inside]
  simp only [Checked.liftM_ok_exceptT, Checked.ofExcept_ok_bind, Checked.get_of_getElem? present,
    FilterArrays.setByte_arrays]

/-- Setting the positions from one on writes the bytes that are left. -/
theorem foldlM_setPosition {matcher : Matcher} {offset position : Nat} {value bytes : List UInt8}
    (behind : offset ≤ position) (inside : matcher.range.first ≤ position)
    (left : value.drop (position - matcher.range.first) = bytes) (pattern : Pattern) :
    (List.range' position bytes.length).foldlM (matcher.setPosition offset value) pattern.arrays =
      Checked.ofExcept ((pattern.writeAll (position - offset) bytes).map Pattern.arrays) := by
  induction bytes generalizing position pattern with
  | nil => rfl
  | cons byte bytes ih =>
      have present : value[position - matcher.range.first]? = some byte := by
        rw [← List.head?_drop, left]
        rfl
      have others : value.drop (position + 1 - matcher.range.first) = bytes := by
        rw [Nat.sub_add_comm inside, ← List.tail_drop, left]
        rfl
      rw [List.length_cons, List.range'_succ, List.foldlM_cons,
        setPosition_arrays behind inside present, Pattern.writeAll]
      cases pattern.write (position - offset) byte with
      | error fault => rfl
      | ok written =>
          have behindNext : offset ≤ position + 1 := Nat.le_succ_of_le behind
          have insideNext : matcher.range.first ≤ position + 1 := Nat.le_succ_of_le inside
          have rest := ih behindNext insideNext others written
          rw [Nat.sub_add_comm behind] at rest
          exact rest

theorem arraysChecked_eq {matcher : Matcher}
    (bounds : matcher.range.Within Layout.maxMatcherWidth) (offset : Nat) :
    matcher.arraysChecked offset =
      Checked.ofExcept ((matcher.pattern offset).map Pattern.arrays) := by
  have count := length_drop_bytes bounds.ordered offset
  unfold arraysChecked pattern
  split
  · rename_i before
    have none : matcher.bytes.drop (offset - matcher.range.first) = [] :=
      List.length_eq_zero_iff.1 (by omega)
    rw [none]
    rfl
  · have loop := foldlM_setPosition (Nat.le_max_left offset matcher.range.first)
      (Nat.le_max_right offset matcher.range.first) (Eq.refl (matcher.bytes.drop _)) .empty
    have index : max offset matcher.range.first - offset = matcher.range.first - offset := by
      omega
    have skipped : max offset matcher.range.first - matcher.range.first =
        offset - matcher.range.first := by
      omega
    rw [index, skipped, count] at loop
    rw [bytesChecked_eq bounds, Checked.liftM_ok_exceptT, Checked.ofExcept_ok_bind]
    exact loop

end Matcher

/-! ## The filters of a layout -/

def FilterArrays.scanFilter (arrays : FilterArrays) (key : FilterKey) (offset : Nat) : ScanFilter :=
  ⟨key, arrays.filter, arrays.mask, offset⟩

/-- Pushes a filter for each prefix, which is set from an index on in a copy of the arrays. -/
def FilterArrays.pushNarrowed (base : FilterArrays) (key : FilterKey) (offset index : Nat)
    (filters : List ScanFilter) (prefixes : List (List UInt8)) :
    ExceptT FilterError Checked (List ScanFilter) :=
  prefixes.foldlM (fun filters bytes => do
    let narrowed ← base.setAll index bytes
    Checked.ofExcept (ScanFilter.push filters (narrowed.scanFilter key offset))) filters

theorem FilterArrays.pushNarrowed_arrays (base : Pattern) (key : FilterKey) (offset index : Nat)
    (filters : List ScanFilter) (prefixes : List (List UInt8)) :
    base.arrays.pushNarrowed key offset index filters prefixes =
      Checked.ofExcept (ScanFilter.pushAll filters (prefixes.map fun bytes =>
        (base.writeAll index bytes).map (ScanFilter.ofPattern key offset))) := by
  rw [List.map_eq_flatMap]
  refine ScanFilter.foldlM_eq_pushAll (fun filters bytes => ?_) prefixes filters
  rw [setAll_arrays, ScanFilter.pushAll_singleton]
  cases base.writeAll index bytes with
  | error fault => rfl
  | ok narrowed => rfl

namespace Layout

def baseChecked (layout : Layout) (offset : Nat) : ExceptT FilterError Checked FilterArrays :=
  match layout.matcher with
  | none => return .empty
  | some matcher => matcher.arraysChecked offset

def manufacturerFiltersChecked (layout : Layout) (ids : List UInt16) :
    ExceptT FilterError Checked (List ScanFilter) := do
  let base ← layout.baseChecked 0
  ids.foldlM (fun filters id =>
    Checked.ofExcept (ScanFilter.push filters (base.scanFilter (.manufacturer id) 0))) []

/-- Prefixes are compared right behind the type code, which ends the arrays. -/
def iBeaconFiltersChecked (layout : Layout) (ids : List UInt16) (prefixes : List (List UInt8)) :
    ExceptT FilterError Checked (List ScanFilter) := do
  let base ← layout.baseChecked 0
  ids.foldlM (fun filters id =>
    if prefixes.isEmpty then
      Checked.ofExcept (ScanFilter.push filters (base.scanFilter (.manufacturer id) 0))
    else
      base.pushNarrowed (.manufacturer id) 0 base.filter.length filters prefixes) []

/-- The range of the first identifier, unless it starts before an offset. -/
def firstIdentifier? (layout : Layout) (offset : Nat) : Option ByteRange :=
  layout.identifiers.head?.filter (offset ≤ ·.first)

def serviceFiltersChecked (layout : Layout) (service : ServiceField)
    (prefixes : List (List UInt8)) : ExceptT FilterError Checked (List ScanFilter) := do
  let offset := service.range.last + 1
  let base ← layout.baseChecked offset
  match layout.firstIdentifier? offset, prefixes with
  | some range, _ :: _ =>
      let index ← Checked.subtract range.first offset
      let width ← range.widthChecked
      base.pushNarrowed (.service service.uuid) offset index [] (prefixes.map (·.take width))
  | _, _ => Checked.ofExcept (ScanFilter.push [] (base.scanFilter (.service service.uuid) offset))

def scanFiltersChecked (layout : Layout) (ids : List UInt16) (prefixes : List (List UInt8)) :
    ExceptT FilterError Checked (List ScanFilter) := do
  match layout.service with
  | some service => layout.serviceFiltersChecked service prefixes
  | none =>
      if ids.isEmpty then
        throw .noManufacturerIds
      else
        match layout.matcher with
        | none => layout.manufacturerFiltersChecked ids
        | some matcher =>
            if ← matcher.isIBeaconChecked then
              layout.iBeaconFiltersChecked ids prefixes
            else
              layout.manufacturerFiltersChecked ids

/-! ### Agreement with the synthesis -/

theorem baseChecked_eq {layout : Layout} (bounds : layout.WellFormed) (offset : Nat)
    (start : layout.filterOffset = offset) :
    layout.baseChecked offset = Checked.ofExcept (layout.basePattern.map Pattern.arrays) := by
  rw [baseChecked, basePattern, start]
  cases present : layout.matcher with
  | none => rfl
  | some matcher => exact Matcher.arraysChecked_eq (bounds.matcher matcher present).1 offset

theorem scanFilters_eq_pushAll {layout : Layout} {ids : List UInt16}
    (keyed : layout.filterKeys ids ≠ []) (prefixes : List (List UInt8)) :
    layout.scanFilters ids prefixes = layout.basePattern >>= fun base =>
      ScanFilter.pushAll [] ((layout.filterKeys ids).flatMap fun key =>
        (layout.patterns base prefixes).map fun pattern =>
          pattern.map (ScanFilter.ofPattern key layout.filterOffset)) := by
  have collected : ∀ candidates, ScanFilter.pushAll [] candidates =
      ScanFilter.collect ScanFilter.maxFilters candidates := by
    intro candidates
    rw [ScanFilter.pushAll_eq_collect (Nat.zero_add ScanFilter.maxFilters)]
    cases ScanFilter.collect ScanFilter.maxFilters candidates with
    | error fault => rfl
    | ok filters => rfl
  simp only [scanFilters, collected, List.isEmpty_eq_false_iff.2 keyed, Bool.false_eq_true,
    if_false]

section Manufacturer

variable {layout : Layout} (bounds : layout.WellFormed) (source : layout.service = none)
  {ids : List UInt16} (nonempty : ids ≠ []) (prefixes : List (List UInt8))

include source nonempty

theorem scanFilters_of_manufacturer :
    layout.scanFilters ids prefixes = layout.basePattern >>= fun base =>
      ScanFilter.pushAll [] (ids.flatMap fun id =>
        (layout.patterns base prefixes).map fun pattern =>
          pattern.map (ScanFilter.ofPattern (.manufacturer id) 0)) := by
  have offset : layout.filterOffset = 0 := by rw [filterOffset, source]
  have keys : layout.filterKeys ids = ids.map .manufacturer := by rw [filterKeys, source]
  rw [scanFilters_eq_pushAll (by rwa [keys, Ne, List.map_eq_nil_iff]), keys, offset]
  simp only [List.flatMap_map]

include bounds

theorem manufacturerFiltersChecked_eq (wide : layout.prefixSlot? = none) :
    layout.manufacturerFiltersChecked ids =
      Checked.ofExcept (layout.scanFilters ids prefixes) := by
  rw [manufacturerFiltersChecked, baseChecked_eq bounds 0 (by rw [filterOffset, source]),
    scanFilters_of_manufacturer source nonempty]
  cases layout.basePattern with
  | error fault => rfl
  | ok base =>
      refine ScanFilter.foldlM_eq_pushAll (fun filters id => ?_) ids []
      rw [patterns_of_wide (.inl wide), List.map_singleton, ScanFilter.pushAll_singleton]
      rfl

theorem iBeaconFiltersChecked_eq {matcher : Matcher} (present : layout.matcher = some matcher)
    (iBeacon : matcher.isIBeacon = true) :
    layout.iBeaconFiltersChecked ids prefixes =
      Checked.ofExcept (layout.scanFilters ids prefixes) := by
  have offset : layout.filterOffset = 0 := by rw [filterOffset, source]
  have slot : layout.prefixSlot? = some ⟨matcher.range.last + 1, none⟩ := by
    rw [prefixSlot?, source]
    simp only [present, iBeacon, if_true]
  rw [iBeaconFiltersChecked, baseChecked_eq bounds 0 offset,
    scanFilters_of_manufacturer source nonempty]
  cases made : layout.basePattern with
  | error fault => rfl
  | ok base =>
      -- The arrays end right behind the type code.
      have length : base.arrays.filter.length = matcher.range.last + 1 - layout.filterOffset := by
        rw [basePattern, present] at made
        have ordered := (bounds.matcher matcher present).1.ordered
        rw [← ByteRange.first_add_width ordered]
        exact base.length_filter.trans (Matcher.length_pattern made)
      refine ScanFilter.foldlM_eq_pushAll (fun filters id => ?_) ids []
      cases prefixes with
      | nil =>
          rw [patterns_of_wide (.inr rfl), List.map_singleton, ScanFilter.pushAll_singleton]
          rfl
      | cons first others =>
          rw [patterns_of_slot slot, length, List.map_map]
          exact FilterArrays.pushNarrowed_arrays base _ 0 _ filters (first :: others)

end Manufacturer

theorem prefixSlot?_of_service {layout : Layout} {service : ServiceField}
    (source : layout.service = some service) :
    layout.prefixSlot? = (layout.firstIdentifier? layout.filterOffset).map fun range =>
      ⟨range.first, some range.width⟩ := by
  rw [prefixSlot?, source, firstIdentifier?]
  cases layout.identifiers with
  | nil => rfl
  | cons range ranges =>
      by_cases behind : layout.filterOffset ≤ range.first
      · simp [Option.filter, behind]
      · simp [Option.filter, behind]

theorem serviceFiltersChecked_eq {layout : Layout} (bounds : layout.WellFormed)
    {service : ServiceField} (source : layout.service = some service) (ids : List UInt16)
    (prefixes : List (List UInt8)) :
    layout.serviceFiltersChecked service prefixes =
      Checked.ofExcept (layout.scanFilters ids prefixes) := by
  have offset : layout.filterOffset = service.range.last + 1 := by rw [filterOffset, source]
  have keys : layout.filterKeys ids = [.service service.uuid] := by rw [filterKeys, source]
  have place := prefixSlot?_of_service source
  rw [serviceFiltersChecked, ← offset, baseChecked_eq bounds _ rfl,
    scanFilters_eq_pushAll (by rw [keys]; exact List.cons_ne_nil _ _), keys]
  simp only [List.flatMap_singleton]
  cases layout.basePattern with
  | error fault => rfl
  | ok base =>
      have unnarrowed : layout.prefixSlot? = none ∨ prefixes = [] →
          ScanFilter.pushAll [] ((layout.patterns base prefixes).map fun pattern =>
            pattern.map (ScanFilter.ofPattern (.service service.uuid) layout.filterOffset)) =
          ScanFilter.push []
            (base.arrays.scanFilter (.service service.uuid) layout.filterOffset) := by
        intro wide
        rw [patterns_of_wide wide, List.map_singleton, ScanFilter.pushAll_singleton]
        rfl
      cases first : layout.firstIdentifier? layout.filterOffset with
      | none =>
          rw [first, Option.map_none] at place
          exact congrArg Checked.ofExcept (unnarrowed (.inl place)).symm
      | some range =>
          cases prefixes with
          | nil => exact congrArg Checked.ofExcept (unnarrowed (.inr rfl)).symm
          | cons bytes others =>
              rw [first, Option.map_some] at place
              obtain ⟨present, behind⟩ := Option.filter_eq_some_iff.1 first
              have bounded := bounds.identifiers range (List.mem_of_mem_head? present)
              have narrowed := FilterArrays.pushNarrowed_arrays base (.service service.uuid)
                layout.filterOffset (range.first - layout.filterOffset) []
                ((bytes :: others).map (·.take range.width))
              rw [List.map_map] at narrowed
              simp only [patterns_of_slot place, List.map_map,
                Checked.subtract_of_le (of_decide_eq_true behind),
                ByteRange.widthChecked_eq bounded.ordered, Checked.liftM_ok_exceptT,
                Checked.ofExcept_ok_bind]
              exact narrowed

theorem scanFiltersChecked_eq {layout : Layout} (bounds : layout.WellFormed) (ids : List UInt16)
    (prefixes : List (List UInt8)) :
    layout.scanFiltersChecked ids prefixes =
      Checked.ofExcept (layout.scanFilters ids prefixes) := by
  unfold scanFiltersChecked
  cases source : layout.service with
  | some service => exact serviceFiltersChecked_eq bounds source ids prefixes
  | none =>
      cases ids with
      | nil =>
          rw [scanFilters, filterKeys, source]
          rfl
      | cons id ids =>
          have nonempty : id :: ids ≠ [] := List.cons_ne_nil id ids
          cases present : layout.matcher with
          | none =>
              have wide : layout.prefixSlot? = none := by
                simp only [prefixSlot?, source, present]
              exact manufacturerFiltersChecked_eq bounds source nonempty prefixes wide
          | some matcher =>
              have ordered := (bounds.matcher matcher present).1.ordered
              simp only [Matcher.isIBeaconChecked_eq ordered]
              cases iBeacon : matcher.isIBeacon with
              | true =>
                  exact iBeaconFiltersChecked_eq bounds source nonempty prefixes present iBeacon
              | false =>
                  have wide : layout.prefixSlot? = none := by
                    simp only [prefixSlot?, source, present, iBeacon, Bool.false_eq_true, if_false]
                  exact manufacturerFiltersChecked_eq bounds source nonempty prefixes wide

end Layout

end BleBeacon
