import BleBeacon.Proofs.Checked.Arrays
import BleBeacon.Proofs.Filter.Synthesis
import Mathlib.Data.List.Induction

/-!
# Filter arrays after any writes

The two arrays of a filter are changed in place, by calls that may come in any order, hit an index
again or be refused. After any such calls both arrays end behind the largest index that was written;
the filter has the last byte written at an index under a full mask, and both are zero elsewhere. A
refused call is one behind the capacity, and it leaves the arrays alone. The arrays of every filter of
a layout come about like this, so no bit of a filter is set where its mask does not compare.
-/

namespace BleBeacon

theorem Checked.liftM_bind_eq_ofExcept_iff {ε α β : Type} {action : Checked α}
    {rest : α → ExceptT ε Checked β} {result : Except ε β} :
    (liftM action >>= rest) = ofExcept result ↔
      ∃ value, action = .ok value ∧ rest value = ofExcept result := by
  cases action with
  | error fault => exact ⟨nofun, nofun⟩
  | ok value =>
      constructor
      · intro whole
        exact ⟨value, rfl, whole⟩
      · rintro ⟨_, ⟨⟩, whole⟩
        exact whole

namespace FilterArrays

/-! ## Calls that change arrays in place -/

/-- Pads both arrays in turn while the filter is not longer than the index. If one of them has no
room for a zero the arrays stay as they are by then. -/
def padBehind (index : Nat) (arrays : FilterArrays) : FilterArrays × Except FilterError Unit :=
  if arrays.filter.length ≤ index then
    if arrays.filter.length < Pattern.maxLength then
      if arrays.mask.length < Pattern.maxLength then
        padBehind index ⟨arrays.filter ++ [0], arrays.mask ++ [0]⟩
      else
        (⟨arrays.filter ++ [0], arrays.mask⟩, .error .filterTooLong)
    else
      (arrays, .error .filterTooLong)
  else
    (arrays, .ok ())
termination_by index + 1 - arrays.filter.length
decreasing_by
  rw [List.length_append, List.length_singleton]
  omega

/-- Sets a byte under a full mask. The arrays come back with the answer, also when it is an error. -/
def update (arrays : FilterArrays) (index : Nat) (byte : UInt8) :
    Checked (FilterArrays × Except FilterError Unit) :=
  if Pattern.maxLength ≤ index then
    .ok (arrays, .error .filterTooLong)
  else
    match arrays.padBehind index with
    | (padded, .error fault) => .ok (padded, .error fault)
    | (padded, .ok ()) => do
        let filter ← Checked.set padded.filter index byte
        let mask ← Checked.set padded.mask index 0xFF
        return (⟨filter, mask⟩, .ok ())

/-- A call to set a byte. -/
structure Write where
  index : Nat
  byte : UInt8
  deriving DecidableEq, Repr

/-- Makes calls one after the other, whatever the answers to those before. -/
def run (arrays : FilterArrays) :
    List Write → Checked (FilterArrays × List (Except FilterError Unit))
  | [] => .ok (arrays, [])
  | write :: writes => do
      let (changed, answer) ← arrays.update write.index write.byte
      let (final, answers) ← changed.run writes
      return (final, answer :: answers)

/-! ## What calls leave behind -/

/-- The answer to a call: only an index behind the capacity is refused. -/
def Write.answer (write : Write) : Except FilterError Unit :=
  if write.index < 31 then .ok () else .error .filterTooLong

/-- The calls that are not refused. -/
def effective (writes : List Write) : List Write :=
  writes.filter fun write => write.index < 31

/-- One more than the largest index that was written, or zero if none was. -/
def reach (writes : List Write) : Nat :=
  ((effective writes).map Write.index).max?.elim 0 (· + 1)

/-- The byte that was written last at an index. -/
def lastByte? (writes : List Write) (index : Nat) : Option UInt8 :=
  ((effective writes).filter fun write => write.index = index).getLast?.map Write.byte

/-- What arrays hold after calls. -/
structure Holds (arrays : FilterArrays) (writes : List Write) : Prop where
  length_filter : arrays.filter.length = reach writes
  length_mask : arrays.mask.length = reach writes
  reach_le : reach writes ≤ 31
  written : ∀ index byte, lastByte? writes index = some byte →
    arrays.filter[index]? = some byte ∧ arrays.mask[index]? = some 0xFF
  unwritten : ∀ index < reach writes, lastByte? writes index = none →
    arrays.filter[index]? = some 0 ∧ arrays.mask[index]? = some 0

theorem effective_concat (writes : List Write) (write : Write) :
    effective (writes ++ [write]) =
      if write.index < 31 then effective writes ++ [write] else effective writes := by
  rw [effective, List.filter_append]
  by_cases inside : write.index < 31
  · simp [inside, effective]
  · simp [inside, effective]

theorem reach_concat (writes : List Write) (write : Write) :
    reach (writes ++ [write]) =
      if write.index < 31 then max (reach writes) (write.index + 1) else reach writes := by
  have largest : ∀ indices : List Nat, (indices ++ [write.index]).max?.elim 0 (· + 1) =
      max (indices.max?.elim 0 (· + 1)) (write.index + 1) := by
    intro indices
    cases indices with
    | nil => simp
    | cons first others =>
        simp only [List.cons_append, List.max?_cons', List.foldl_append, List.foldl_cons,
          List.foldl_nil, Option.elim_some]
        omega
  rw [reach, effective_concat]
  split
  · rw [List.map_append, List.map_singleton, largest]
    rfl
  · rfl

theorem lastByte?_concat (writes : List Write) (write : Write) (index : Nat) :
    lastByte? (writes ++ [write]) index =
      if write.index < 31 ∧ write.index = index then some write.byte
      else lastByte? writes index := by
  rw [lastByte?, effective_concat]
  by_cases inside : write.index < 31
  · rw [if_pos inside, List.filter_append]
    by_cases same : write.index = index
    · subst same
      simp [inside]
    · simp [same, lastByte?]
  · simp [inside, lastByte?]

theorem reach_le (writes : List Write) : reach writes ≤ 31 := by
  induction writes using List.reverseRecOn with
  | nil => exact Nat.zero_le _
  | append_singleton writes write ih =>
      rw [reach_concat]
      split
      · omega
      · exact ih

/-! ## One call -/

/-- The turns in which arrays are padded are counted by the length of the filter. -/
theorem padBehind_of_pad {arrays padded : FilterArrays} {index turns : Nat}
    (count : index + 1 - arrays.filter.length = turns) (result : arrays.pad turns = .ok padded) :
    arrays.padBehind index = (padded, .ok ()) := by
  induction turns generalizing arrays with
  | zero =>
      cases result
      rw [padBehind, if_neg (by omega)]
  | succ turns ih =>
      obtain ⟨filter, pushed, result⟩ := bind_eq_ok_iff.1 result
      obtain ⟨mask, pushedMask, result⟩ := bind_eq_ok_iff.1 result
      obtain ⟨room, rfl⟩ := Checked.push_eq_ok_iff.1 pushed
      obtain ⟨maskRoom, rfl⟩ := Checked.push_eq_ok_iff.1 pushedMask
      have longer : (arrays.filter ++ [0]).length = arrays.filter.length + 1 := List.length_append
      rw [padBehind, if_pos (by omega), if_pos room, if_pos maskRoom]
      exact ih (longer ▸ by omega) result

/-- Setting a byte succeeds in place as it does on arrays that are passed on. -/
theorem update_of_setByte {arrays changed : FilterArrays} {index : Nat} {byte : UInt8}
    (inside : index < Pattern.maxLength)
    (result : arrays.setByte index byte = Checked.ofExcept (.ok changed)) :
    arrays.update index byte = .ok (changed, .ok ()) := by
  rw [setByte, if_neg (Nat.not_le.2 inside)] at result
  obtain ⟨padded, padding, result⟩ := Checked.liftM_bind_eq_ofExcept_iff.1 result
  obtain ⟨filter, filtered, result⟩ := Checked.liftM_bind_eq_ofExcept_iff.1 result
  obtain ⟨mask, masked, result⟩ := Checked.liftM_bind_eq_ofExcept_iff.1 result
  cases result
  rw [update, if_neg (Nat.not_le.2 inside), padBehind_of_pad rfl padding]
  simp only [filtered, masked, Checked.ok_bind]
  rfl

theorem update_of_le {index : Nat} (behind : Pattern.maxLength ≤ index) (arrays : FilterArrays)
    (byte : UInt8) : arrays.update index byte = .ok (arrays, .error .filterTooLong) :=
  if_pos behind

end FilterArrays

/-! ## A run of calls -/

namespace Pattern

open FilterArrays

/-- The pins of a pattern are what calls wrote last. -/
structure Records (pattern : Pattern) (writes : List Write) : Prop where
  length : pattern.length = reach writes
  pinned : ∀ (index : Nat) (pin : UInt8),
    pattern.cells[index]? = some (some pin) ↔ lastByte? writes index = some pin

theorem records_empty : empty.Records [] where
  length := rfl
  pinned := by simp [empty, lastByte?, effective]

/-- A pattern is determined by the calls that it records. -/
theorem Records.unique {pattern other : Pattern} {writes : List Write}
    (first : pattern.Records writes) (second : other.Records writes) : pattern = other :=
  ext_pins (first.length.trans second.length.symm) fun index pin =>
    (first.pinned index pin).trans (second.pinned index pin).symm

/-- A byte that is written is recorded behind what was. -/
theorem Records.write {pattern written : Pattern} {writes : List Write}
    (recorded : pattern.Records writes) {index : Nat} {byte : UInt8}
    (result : pattern.write index byte = .ok written) :
    written.Records (writes ++ [⟨index, byte⟩]) := by
  have inside : index < 31 := exists_write_iff.1 ⟨written, result⟩
  constructor
  case length => rw [length_write result, reach_concat, if_pos inside, recorded.length]
  case pinned =>
    intro other pin
    rw [pinned_write_iff result, lastByte?_concat]
    by_cases same : index = other
    · rw [if_pos same.symm, if_pos ⟨inside, same⟩, Option.some.injEq, eq_comm]
    · rw [if_neg (Ne.symm same), if_neg (same ∘ And.right), recorded.pinned]

/-- A refused call is recorded by the same pattern. -/
theorem Records.refuse {pattern : Pattern} {writes : List Write}
    (recorded : pattern.Records writes) {write : Write} (behind : 31 ≤ write.index) :
    pattern.Records (writes ++ [write]) := by
  have refused : ¬write.index < 31 := Nat.not_lt.2 behind
  constructor
  case length => rw [reach_concat, if_neg refused, recorded.length]
  case pinned =>
    intro index pin
    rw [lastByte?_concat, if_neg (refused ∘ And.left), recorded.pinned]

/-- A call changes the arrays of a pattern to those of a pattern that records it too. -/
theorem Records.update {pattern : Pattern} {writes : List Write}
    (recorded : pattern.Records writes) (write : Write) :
    ∃ changed : Pattern,
      pattern.arrays.update write.index write.byte = .ok (changed.arrays, write.answer) ∧
        changed.Records (writes ++ [write]) := by
  by_cases inside : write.index < 31
  · obtain ⟨changed, result⟩ : ∃ changed, pattern.write write.index write.byte = .ok changed :=
      exists_write_iff.2 inside
    have set := setByte_arrays pattern write.index write.byte
    rw [result] at set
    rw [Write.answer, if_pos inside]
    exact ⟨changed, update_of_setByte inside set, recorded.write result⟩
  · have behind : 31 ≤ write.index := Nat.not_lt.1 inside
    rw [Write.answer, if_neg inside]
    exact ⟨pattern, update_of_le behind pattern.arrays write.byte, recorded.refuse behind⟩

/-- Calls change the arrays of a pattern to those of a pattern that records all of them. -/
theorem Records.run {pattern : Pattern} {history : List Write}
    (recorded : pattern.Records history) (writes : List Write) :
    ∃ final : Pattern, pattern.arrays.run writes = .ok (final.arrays, writes.map Write.answer) ∧
      final.Records (history ++ writes) := by
  induction writes generalizing pattern history with
  | nil => exact ⟨pattern, rfl, by rwa [List.append_nil]⟩
  | cons write writes ih =>
      obtain ⟨changed, step, next⟩ := recorded.update write
      obtain ⟨final, rest, all⟩ := ih next
      refine ⟨final, ?_, by rwa [List.append_assoc, List.singleton_append] at all⟩
      simp only [FilterArrays.run, step, rest, Checked.ok_bind]
      rfl

/-- The arrays of a pattern that records calls hold what these left behind. -/
theorem Records.holds_arrays {pattern : Pattern} {writes : List Write}
    (recorded : pattern.Records writes) : pattern.arrays.Holds writes := by
  have cell : ∀ {index : Nat} {content : Option UInt8}, pattern.cells[index]? = some content →
      pattern.arrays.filter[index]? = some (content.getD 0) ∧
        pattern.arrays.mask[index]? = some (if content.isSome then 0xFF else 0) := by
    intro index content present
    simp [arrays, filter, mask, present]
  constructor
  case length_filter => exact pattern.length_filter.trans recorded.length
  case length_mask => exact pattern.length_mask.trans recorded.length
  case reach_le => exact reach_le writes
  case written =>
    intro index byte last
    exact cell ((recorded.pinned index byte).2 last)
  case unwritten =>
    intro index inside none
    have present : index < pattern.cells.length := Nat.lt_of_lt_of_eq inside recorded.length.symm
    have held := List.getElem?_eq_getElem present
    cases content : pattern.cells[index] with
    | none => exact cell (content ▸ held)
    | some pin =>
        have pinned := (recorded.pinned index pin).1 (content ▸ held)
        rw [none] at pinned
        cases pinned

/-- Bytes that are written one behind the other are recorded as calls that succeed. -/
theorem Records.writeAll {pattern final : Pattern} {history : List Write}
    (recorded : pattern.Records history) {index : Nat} {bytes : List UInt8}
    (result : pattern.writeAll index bytes = .ok final) :
    ∃ writes, (∀ write ∈ writes, write.index < 31) ∧ final.Records (history ++ writes) := by
  induction bytes generalizing pattern history index with
  | nil =>
      cases result
      exact ⟨[], List.forall_mem_nil _, by rwa [List.append_nil]⟩
  | cons byte bytes ih =>
      obtain ⟨middle, first, rest⟩ := bind_eq_ok_iff.1 result
      have inside : index < 31 := exists_write_iff.1 ⟨middle, first⟩
      obtain ⟨writes, effective, all⟩ := ih (recorded.write first) rest
      refine ⟨⟨index, byte⟩ :: writes, List.forall_mem_cons.2 ⟨inside, effective⟩, ?_⟩
      rwa [List.append_assoc, List.singleton_append] at all

end Pattern

namespace FilterArrays

/-- At every index the filter has a byte under a full mask, or both arrays are zero. -/
theorem Holds.getElem? {arrays : FilterArrays} {writes : List Write} (held : arrays.Holds writes)
    {index : Nat} (inside : index < reach writes) :
    ∃ byte, arrays.filter[index]? = some byte ∧
      (arrays.mask[index]? = some 0xFF ∨ byte = 0 ∧ arrays.mask[index]? = some 0) := by
  cases last : lastByte? writes index with
  | some byte =>
      obtain ⟨filter, mask⟩ := held.written index byte last
      exact ⟨byte, filter, .inl mask⟩
  | none =>
      obtain ⟨filter, mask⟩ := held.unwritten index inside last
      exact ⟨0, filter, .inr ⟨rfl, mask⟩⟩

theorem Holds.mask_eq {arrays : FilterArrays} {writes : List Write} (held : arrays.Holds writes) :
    ∀ bits ∈ arrays.mask, bits = 0 ∨ bits = 0xFF := by
  intro bits member
  obtain ⟨index, inside, rfl⟩ := List.mem_iff_getElem.1 member
  obtain ⟨_, _, full | ⟨_, zero⟩⟩ := held.getElem? (held.length_mask ▸ inside)
  · exact .inr (List.getElem_of_getElem? full).2
  · exact .inl (List.getElem_of_getElem? zero).2

/-- The filter has no bits outside of the mask. -/
theorem Holds.zipWith_and {arrays : FilterArrays} {writes : List Write}
    (held : arrays.Holds writes) :
    List.zipWith (· &&& ·) arrays.filter arrays.mask = arrays.filter := by
  have lengths : arrays.mask.length = arrays.filter.length :=
    held.length_mask.trans held.length_filter.symm
  apply List.ext_getElem
  · rw [List.length_zipWith, lengths, Nat.min_self]
  · intro index _ inside
    have maskInside : index < arrays.mask.length := lengths ▸ inside
    obtain ⟨byte, filter, mask⟩ := held.getElem? (held.length_filter ▸ inside)
    rw [List.getElem?_eq_getElem inside, Option.some.injEq] at filter
    rw [List.getElem?_eq_getElem maskInside, Option.some.injEq, Option.some.injEq] at mask
    rw [List.getElem_zipWith, filter]
    rcases mask with full | ⟨rfl, zero⟩
    · rw [full]
      exact UInt8.and_neg_one
    · rw [zero]
      rfl

/-- The arrays after calls that none of which is refused are those of the pattern that records them. -/
theorem run_eq_of_records {pattern : Pattern} {writes : List Write}
    (effective : ∀ write ∈ writes, write.index < 31) (recorded : pattern.Records writes) :
    empty.run writes = .ok (pattern.arrays, writes.map fun _ => .ok ()) := by
  obtain ⟨final, result, all⟩ := Pattern.records_empty.run writes
  rw [List.nil_append] at all
  cases recorded.unique all
  have answers : writes.map Write.answer = writes.map fun _ => .ok () :=
    List.map_congr_left fun write member => if_pos (effective write member)
  rw [← answers]
  exact result

end FilterArrays

open FilterArrays

/-- The pattern of a filter records calls that succeed. -/
theorem Layout.exists_records_of_mem {layout : Layout} {ids : List UInt16}
    {prefixes : List (List UInt8)} {filters : List ScanFilter}
    (made : layout.scanFilters ids prefixes = .ok filters) {filter : ScanFilter}
    (member : filter ∈ filters) :
    ∃ pattern : Pattern, pattern.arrays = ⟨filter.filter, filter.mask⟩ ∧
      ∃ writes, (∀ write ∈ writes, write.index < 31) ∧ pattern.Records writes := by
  obtain ⟨base, matched, _, members⟩ := mem_of_scanFilters made
  obtain ⟨key, _, pattern, listed, rfl⟩ := (members filter).1 member
  refine ⟨pattern, rfl, ?_⟩
  have based : ∃ writes, (∀ write ∈ writes, write.index < 31) ∧ base.Records writes := by
    rcases eq_empty_or_pattern_of_basePattern matched with ⟨_, rfl⟩ | ⟨matcher, _, written⟩
    · exact ⟨[], List.forall_mem_nil _, Pattern.records_empty⟩
    · exact Pattern.records_empty.writeAll written
  rcases eq_base_or_writeAll_of_mem_patterns listed with rfl | ⟨slot, _, bytes, _, written⟩
  · exact based
  · obtain ⟨front, effective, recorded⟩ := based
    obtain ⟨back, others, all⟩ := recorded.writeAll written
    exact ⟨front ++ back, List.forall_mem_append.2 ⟨effective, others⟩, all⟩

/-- After any calls the arrays have one length, which reaches behind the largest index written, with
the last byte written at an index under a full mask and zeros elsewhere. A call is refused exactly if
its index is behind the capacity, and then it changes nothing. The arrays of every filter that is made
for a layout are left behind by such calls: they have one length, the mask compares whole bytes or
nothing, and the filter has no bits outside of the mask. -/
theorem arrays_after_writes :
    (∀ writes, ∃ arrays, empty.run writes = .ok (arrays, writes.map Write.answer) ∧
      arrays.Holds writes ∧
      ∀ write : Write, ∃ changed,
        arrays.update write.index write.byte = .ok (changed, write.answer) ∧
          (31 ≤ write.index → changed = arrays)) ∧
    ∀ (layout : Layout) (ids : List UInt16) (prefixes : List (List UInt8))
      (filters : List ScanFilter), layout.scanFilters ids prefixes = .ok filters →
      ∀ filter ∈ filters,
        (∃ writes, empty.run writes =
          .ok (⟨filter.filter, filter.mask⟩, writes.map fun _ => .ok ())) ∧
        filter.filter.length = filter.mask.length ∧
        (∀ bits ∈ filter.mask, bits = 0 ∨ bits = 0xFF) ∧
        List.zipWith (· &&& ·) filter.filter filter.mask = filter.filter := by
  constructor
  · intro writes
    obtain ⟨pattern, result, recorded⟩ := Pattern.records_empty.run writes
    refine ⟨pattern.arrays, result, recorded.holds_arrays, fun write => ?_⟩
    obtain ⟨changed, step, next⟩ := recorded.update write
    refine ⟨changed.arrays, step, fun behind => ?_⟩
    rw [next.unique (recorded.refuse behind)]
  · intro layout ids prefixes filters made filter member
    obtain ⟨pattern, arrays, writes, effective, recorded⟩ :=
      Layout.exists_records_of_mem made member
    have held := recorded.holds_arrays
    have result := run_eq_of_records effective recorded
    rw [arrays] at held result
    exact ⟨⟨writes, result⟩, held.length_filter.trans held.length_mask.symm, held.mask_eq,
      held.zipWith_and⟩

/-- Calls out of order, one of them refused and one over another, and the filter of a service whose
first identifier starts at the matcher, so that a prefix is written over the matcher's byte. -/
theorem arrays_after_writes_overwritten :
    (∃ arrays, empty.run [⟨4, 0xAA⟩, ⟨31, 1⟩, ⟨2, 5⟩, ⟨4, 0xBB⟩] =
        .ok (arrays, [.ok (), .error .filterTooLong, .ok (), .ok ()]) ∧
      arrays.filter.length = 5 ∧ arrays.mask.length = 5 ∧
      arrays.filter[4]? = some 0xBB ∧ arrays.mask[4]? = some 0xFF ∧
      arrays.filter[3]? = some 0 ∧ arrays.mask[3]? = some 0 ∧
      arrays.update 31 1 = .ok (arrays, .error .filterTooLong)) ∧
    ∃ filter, Layout.scanFilters
        { matcher := some ⟨⟨2, 2, false⟩, 0⟩, service := some ⟨.assigned 0xFEAA, ⟨0, 1, false⟩⟩,
          identifiers := [⟨2, 6, false⟩] } [] [[1, 2]] = .ok [filter] ∧
      filter.filter = [1, 2] ∧ filter.filter.length = filter.mask.length ∧
      List.zipWith (· &&& ·) filter.filter filter.mask = filter.filter := by
  obtain ⟨runs, layouts⟩ := arrays_after_writes
  constructor
  · obtain ⟨arrays, result, held, next⟩ := runs [⟨4, 0xAA⟩, ⟨31, 1⟩, ⟨2, 5⟩, ⟨4, 0xBB⟩]
    obtain ⟨overwritten, full⟩ := held.written 4 0xBB (by decide)
    obtain ⟨unwritten, none⟩ := held.unwritten 3 (by decide) (by decide)
    obtain ⟨changed, refused, same⟩ := next ⟨31, 1⟩
    cases same (by decide)
    exact ⟨arrays, result, held.length_filter, held.length_mask, overwritten, full, unwritten, none,
      refused⟩
  · have made : Layout.scanFilters
        { matcher := some ⟨⟨2, 2, false⟩, 0⟩, service := some ⟨.assigned 0xFEAA, ⟨0, 1, false⟩⟩,
          identifiers := [⟨2, 6, false⟩] } [] [[1, 2]] =
        .ok [⟨.service (.assigned 0xFEAA), [1, 2], [0xFF, 0xFF], 2⟩] := by
      rfl
    obtain ⟨_, lengths, _, inside⟩ := layouts _ _ _ _ made _ (List.mem_singleton_self _)
    exact ⟨_, made, rfl, lengths, inside⟩

end BleBeacon
