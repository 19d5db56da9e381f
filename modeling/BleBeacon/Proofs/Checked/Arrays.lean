import BleBeacon.Filter.Pattern
import BleBeacon.Proofs.Checked.Operations

/-!
# Filter arrays

A radio takes the filter and the mask of a pattern as two arrays of a fixed capacity. A byte is set
in both at once: they are padded with zeros up to its index first, one zero at a time. An index
behind the capacity is refused before anything is padded, so neither does padding run out of room
nor is there no place at the index, and setting a byte in the arrays of a pattern gives the arrays
of the pattern with this byte written.
-/

namespace BleBeacon

structure FilterArrays where
  filter : List UInt8
  mask : List UInt8
  deriving DecidableEq, Repr

def Pattern.arrays (pattern : Pattern) : FilterArrays :=
  ⟨pattern.filter, pattern.mask⟩

namespace FilterArrays

def empty : FilterArrays := ⟨[], []⟩

/-- Appends a zero to each array at every turn. -/
def pad (arrays : FilterArrays) : (turns : Nat) → Checked FilterArrays
  | 0 => .ok arrays
  | turns + 1 => do
      let filter ← Checked.push Pattern.maxLength arrays.filter 0
      let mask ← Checked.push Pattern.maxLength arrays.mask 0
      pad ⟨filter, mask⟩ turns

/-- Sets a byte under a full mask. Padding goes on while the filter is not longer than the index. -/
def setByte (arrays : FilterArrays) (index : Nat) (byte : UInt8) :
    ExceptT FilterError Checked FilterArrays :=
  if Pattern.maxLength ≤ index then
    throw .filterTooLong
  else do
    let padded ← arrays.pad (index + 1 - arrays.filter.length)
    let filter ← Checked.set padded.filter index byte
    let mask ← Checked.set padded.mask index 0xFF
    return ⟨filter, mask⟩

/-- Sets consecutive bytes from an index on. -/
def setAll (arrays : FilterArrays) (index : Nat) :
    List UInt8 → ExceptT FilterError Checked FilterArrays
  | [] => return arrays
  | byte :: bytes => do (← arrays.setByte index byte).setAll (index + 1) bytes

/-- Padding the arrays of a pattern opens cells behind it. -/
theorem pad_arrays {pattern : Pattern} {turns : Nat}
    (room : turns ≤ Pattern.maxLength - pattern.length) :
    pattern.arrays.pad turns =
      .ok (Pattern.arrays ⟨pattern.cells ++ List.replicate turns none⟩) := by
  induction turns generalizing pattern with
  | zero =>
      rw [pad, List.replicate_zero, List.append_nil]
  | succ turns ih =>
      have filter : pattern.arrays.filter ++ [0] =
          (Pattern.mk (pattern.cells ++ [none])).filter := by
        rw [Pattern.filter, List.map_append]
        rfl
      have mask : pattern.arrays.mask ++ [0] =
          (Pattern.mk (pattern.cells ++ [none])).mask := by
        rw [Pattern.mask, List.map_append]
        rfl
      have longer : (Pattern.mk (pattern.cells ++ [none])).length = pattern.length + 1 :=
        List.length_append
      rw [pad, Checked.push_of_lt (pattern.length_filter ▸ by omega), Checked.ok_bind,
        Checked.push_of_lt (pattern.length_mask ▸ by omega), Checked.ok_bind, filter, mask,
        ← Pattern.arrays, ih (by omega), List.append_assoc, List.singleton_append,
        List.replicate_succ]

/-- Setting a byte in the arrays of a pattern is writing it in the pattern. -/
theorem setByte_arrays (pattern : Pattern) (index : Nat) (byte : UInt8) :
    pattern.arrays.setByte index byte =
      Checked.ofExcept ((pattern.write index byte).map Pattern.arrays) := by
  unfold setByte Pattern.write
  by_cases inside : index < Pattern.maxLength
  · have length : pattern.arrays.filter.length = pattern.length := pattern.length_filter
    rw [if_neg (Nat.not_le.2 inside), if_pos inside, length, pad_arrays (by omega),
      Checked.liftM_ok_exceptT, Checked.ofExcept_ok_bind]
    -- The index is inside of the padded pattern, and so it is inside of both its arrays.
    generalize reach : Pattern.mk
      (pattern.cells ++ List.replicate (index + 1 - pattern.length) none) = padded
    have present : index < padded.length := by
      rw [← reach, Pattern.length, List.length_append, List.length_replicate, Pattern.length]
      omega
    have filter : Checked.set padded.arrays.filter index byte =
        .ok (Pattern.mk (padded.cells.set index (some byte))).filter := by
      rw [Checked.set_of_lt (padded.length_filter ▸ present), Pattern.filter, List.map_set]
      rfl
    have mask : Checked.set padded.arrays.mask index 0xFF =
        .ok (Pattern.mk (padded.cells.set index (some byte))).mask := by
      rw [Checked.set_of_lt (padded.length_mask ▸ present), Pattern.mask, List.map_set]
      rfl
    rw [filter, mask, ← reach]
    rfl
  · rw [if_pos (Nat.not_lt.1 inside), if_neg inside]
    rfl

theorem setAll_arrays (pattern : Pattern) (index : Nat) (bytes : List UInt8) :
    pattern.arrays.setAll index bytes =
      Checked.ofExcept ((pattern.writeAll index bytes).map Pattern.arrays) := by
  induction bytes generalizing pattern index with
  | nil => rfl
  | cons byte bytes ih =>
      rw [setAll, setByte_arrays, Pattern.writeAll]
      cases pattern.write index byte with
      | error fault => rfl
      | ok written => exact ih written (index + 1)

end FilterArrays

end BleBeacon
