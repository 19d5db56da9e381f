import BleBeacon.Filter.Basic
import BleBeacon.Filter.Pattern
import BleBeacon.Proofs.Except

/-!
# Bytes that fit a pattern

A pattern is fitted by the bytes that reach as far as it does and have the pinned bytes. This is what
comparing filter and mask decides, and writing bytes that are there keeps it, whether they are behind
the end of the pattern or replace cells of it.
-/

namespace BleBeacon

namespace Pattern

/-- Bytes reach as far as a pattern and have its pinned bytes. -/
structure Fits (pattern : Pattern) (bytes : List UInt8) : Prop where
  length_le : pattern.length ≤ bytes.length
  pinned : ∀ (index : Nat) (byte : UInt8),
    pattern.cells[index]? = some (some byte) → bytes[index]? = some byte

theorem fits_empty (bytes : List UInt8) : empty.Fits bytes where
  length_le := Nat.zero_le _
  pinned := by simp [empty]

theorem fits_cons_iff {cell : Option UInt8} {cells : List (Option UInt8)} {byte : UInt8}
    {bytes : List UInt8} :
    Fits ⟨cell :: cells⟩ (byte :: bytes) ↔ (∀ pin ∈ cell, byte = pin) ∧ Fits ⟨cells⟩ bytes := by
  constructor
  · rintro ⟨reach, pinned⟩
    refine ⟨?_, Nat.le_of_succ_le_succ reach, fun index pin => pinned (index + 1) pin⟩
    rintro pin rfl
    exact Option.some.inj (pinned 0 pin rfl)
  · rintro ⟨head, reach, pinned⟩
    refine ⟨Nat.succ_le_succ reach, fun index pin held => ?_⟩
    cases index with
    | zero => exact congrArg some (head pin (Option.some.inj held))
    | succ index => exact pinned index pin held

/-- Masked comparison accepts exactly the bytes that fit. -/
theorem maskedMatch_iff {pattern : Pattern} {bytes : List UInt8} :
    maskedMatch (pattern.filter.zip pattern.mask) bytes = true ↔ pattern.Fits bytes := by
  obtain ⟨cells⟩ := pattern
  induction cells generalizing bytes with
  | nil =>
      simp only [filter, mask, List.map_nil, List.zip_nil_left, maskedMatch, true_iff]
      exact fits_empty bytes
  | cons cell cells ih =>
      cases bytes with
      | nil =>
          simp only [filter, mask, List.map_cons, List.zip_cons_cons, maskedMatch]
          constructor
          · intro impossible
            cases impossible
          · intro fits
            exact absurd fits.length_le (by simp [length])
      | cons byte bytes =>
          have compared : (byte &&& (if cell.isSome then 0xFF else 0) == cell.getD 0) = true ↔
              ∀ pin ∈ cell, byte = pin := by
            cases cell with
            | none => simp
            | some pin =>
                have whole : byte &&& 0xFF = byte := UInt8.and_neg_one
                simp [whole]
          rw [fits_cons_iff, ← ih, ← compared, ← Bool.and_eq_true]
          rfl

theorem length_write {pattern written : Pattern} {index : Nat} {byte : UInt8}
    (result : pattern.write index byte = .ok written) :
    written.length = max pattern.length (index + 1) := by
  unfold write at result
  split at result
  · cases result
    simp only [length, List.length_set, List.length_append, List.length_replicate]
    omega
  · cases result

/-- A pattern reaches behind the last of the bytes written to it. -/
theorem length_writeAll {pattern final : Pattern} {index : Nat} {bytes : List UInt8}
    (some : bytes ≠ []) (result : pattern.writeAll index bytes = .ok final) :
    final.length = max pattern.length (index + bytes.length) := by
  induction bytes generalizing pattern index with
  | nil => exact absurd rfl some
  | cons byte bytes ih =>
      obtain ⟨middle, first, rest⟩ := bind_eq_ok_iff.1 result
      have step := length_write first
      rw [List.length_cons]
      cases bytes with
      | nil =>
          cases rest
          exact step
      | cons next others =>
          rw [ih (List.cons_ne_nil next others) rest, step, List.length_cons]
          omega

/-- The pins of a pattern after one byte is pinned. -/
theorem pinned_write_iff {pattern written : Pattern} {index : Nat} {byte : UInt8}
    (result : pattern.write index byte = .ok written) {other : Nat} {pin : UInt8} :
    written.cells[other]? = some (some pin) ↔
      if other = index then pin = byte else pattern.cells[other]? = some (some pin) := by
  unfold write at result
  split at result
  · cases result
    by_cases same : other = index
    · have inside : index < (pattern.cells ++
          List.replicate (index + 1 - pattern.length) none).length := by
        simp only [length, List.length_append, List.length_replicate]
        omega
      rw [if_pos same, same, List.getElem?_set_self inside, Option.some.injEq, Option.some.injEq,
        eq_comm]
    · rw [if_neg same, List.getElem?_set_ne (Ne.symm same)]
      by_cases old : other < pattern.cells.length
      · rw [List.getElem?_append_left old]
      · rw [List.getElem?_append_right (Nat.not_lt.1 old), List.getElem?_replicate,
          List.getElem?_eq_none (Nat.not_lt.1 old)]
        split <;> simp
  · cases result

/-- The pins of a pattern after consecutive bytes are pinned. -/
theorem pinned_writeAll_iff {pattern final : Pattern} {index : Nat} {bytes : List UInt8}
    (result : pattern.writeAll index bytes = .ok final) {other : Nat} {pin : UInt8} :
    final.cells[other]? = some (some pin) ↔
      if index ≤ other ∧ other < index + bytes.length then bytes[other - index]? = some pin
      else pattern.cells[other]? = some (some pin) := by
  induction bytes generalizing pattern index with
  | nil =>
      cases result
      rw [List.length_nil, if_neg (by omega)]
  | cons byte bytes ih =>
      obtain ⟨middle, first, rest⟩ := bind_eq_ok_iff.1 result
      rw [ih rest, List.length_cons]
      by_cases behind : index + 1 ≤ other ∧ other < index + 1 + bytes.length
      · have next : other - index = other - (index + 1) + 1 := by omega
        rw [if_pos behind, if_pos (by omega), next, List.getElem?_cons_succ]
      · rw [if_neg behind, pinned_write_iff first]
        by_cases same : other = index
        · rw [if_pos same, if_pos (by omega), same, Nat.sub_self, List.getElem?_cons_zero,
            Option.some.injEq, eq_comm]
        · rw [if_neg same, if_neg (by omega)]

theorem exists_write_iff {pattern : Pattern} {index : Nat} {byte : UInt8} :
    (∃ written, pattern.write index byte = .ok written) ↔ index < maxLength := by
  unfold write
  split <;> simp [*]

/-- Bytes can be pinned exactly if the last of them is within the limit of patterns. -/
theorem exists_writeAll_iff {pattern : Pattern} {index : Nat} {bytes : List UInt8} :
    (∃ final, pattern.writeAll index bytes = .ok final) ↔
      bytes = [] ∨ index + bytes.length ≤ maxLength := by
  induction bytes generalizing pattern index with
  | nil => exact iff_of_true ⟨pattern, rfl⟩ (.inl rfl)
  | cons byte bytes ih =>
      rw [List.length_cons]
      constructor
      · rintro ⟨final, result⟩
        obtain ⟨middle, first, rest⟩ := bind_eq_ok_iff.1 result
        have head : index < maxLength := exists_write_iff.1 ⟨middle, first⟩
        rcases ih.1 ⟨final, rest⟩ with rfl | tail
        · exact .inr head
        · exact .inr (by omega)
      · intro fits
        have short : index + (bytes.length + 1) ≤ maxLength := fits.resolve_left (by simp)
        obtain ⟨middle, first⟩ : ∃ middle, pattern.write index byte = .ok middle :=
          exists_write_iff.2 (by omega)
        obtain ⟨final, rest⟩ : ∃ final, middle.writeAll (index + 1) bytes = .ok final :=
          ih.2 (.inr (by omega))
        exact ⟨final, bind_eq_ok_iff.2 ⟨middle, first, rest⟩⟩

/-- A pattern is determined by its length and its pins. -/
theorem ext_pins {left right : Pattern} (lengths : left.length = right.length)
    (pins : ∀ (index : Nat) (pin : UInt8),
      left.cells[index]? = some (some pin) ↔ right.cells[index]? = some (some pin)) :
    left = right := by
  obtain ⟨cells⟩ := left
  obtain ⟨others⟩ := right
  simp only [length] at lengths
  congr 1
  apply List.ext_getElem lengths
  intro index inside otherInside
  apply Option.ext
  intro pin
  have same := pins index pin
  rwa [List.getElem?_eq_getElem inside, List.getElem?_eq_getElem otherInside, Option.some.injEq,
    Option.some.injEq] at same

/-- Pinning a byte that is there keeps a pattern fitted. -/
theorem Fits.write {pattern written : Pattern} {bytes : List UInt8} (fits : pattern.Fits bytes)
    {index : Nat} {byte : UInt8} (present : bytes[index]? = some byte)
    (result : pattern.write index byte = .ok written) : written.Fits bytes := by
  constructor
  case length_le =>
    obtain ⟨inside, _⟩ := List.getElem?_eq_some_iff.1 present
    rw [length_write result]
    exact Nat.max_le.2 ⟨fits.length_le, inside⟩
  case pinned =>
    intro other pin held
    rw [pinned_write_iff result] at held
    split at held
    · rename_i same
      rw [same, held]
      exact present
    · exact fits.pinned other pin held

/-- Pinning consecutive bytes that are there keeps a pattern fitted. -/
theorem Fits.writeAll {pattern final : Pattern} {bytes : List UInt8} (fits : pattern.Fits bytes)
    {index : Nat} {written : List UInt8} (present : written <+: bytes.drop index)
    (result : pattern.writeAll index written = .ok final) : final.Fits bytes := by
  induction written generalizing pattern index with
  | nil =>
      cases result
      exact fits
  | cons byte written ih =>
      obtain ⟨middle, first, rest⟩ := bind_eq_ok_iff.1 result
      have head : bytes[index]? = some byte := by
        have leading := List.prefix_iff_getElem?.1 present 0 (Nat.succ_pos _)
        rwa [List.getElem?_drop] at leading
      have tail : written <+: bytes.drop (index + 1) := by
        obtain ⟨after, whole⟩ := present
        exact ⟨after, by rw [← List.tail_drop, ← whole]; rfl⟩
      exact ih (fits.write head first) tail rest

/-- Bytes that fit a pattern with more bytes pinned fit it without them, unless the new pins replaced
others. -/
theorem Fits.of_writeAll {pattern final : Pattern} {index : Nat} {written bytes : List UInt8}
    (result : pattern.writeAll index written = .ok final)
    (kept : ∀ other byte pin, index ≤ other → written[other - index]? = some byte →
      pattern.cells[other]? = some (some pin) → byte = pin)
    (fits : final.Fits bytes) : pattern.Fits bytes := by
  constructor
  case length_le =>
    by_cases none : written = []
    · rw [none] at result
      cases result
      exact fits.length_le
    · have reach := fits.length_le
      rw [length_writeAll none result] at reach
      exact Nat.le_trans (Nat.le_max_left _ _) reach
  case pinned =>
    intro other pin present
    apply fits.pinned
    rw [pinned_writeAll_iff result]
    split
    · rename_i inside
      have replaced : other - index < written.length := by omega
      have held := List.getElem?_eq_getElem replaced
      rw [held, kept other _ pin inside.1 held present]
    · exact present

/-- Bytes that fit a pattern before and after more bytes are pinned show that no pin was replaced by
another. -/
theorem Fits.eq_pin_of_writeAll {pattern final : Pattern} {index : Nat} {written bytes : List UInt8}
    (result : pattern.writeAll index written = .ok final) (before : pattern.Fits bytes)
    (after : final.Fits bytes) {offset : Nat} {byte pin : UInt8}
    (present : written[offset]? = some byte)
    (pinned : pattern.cells[index + offset]? = some (some pin)) : byte = pin := by
  have inside := (List.getElem?_eq_some_iff.1 present).1
  have replaced : final.cells[index + offset]? = some (some byte) := by
    rw [pinned_writeAll_iff result, if_pos (by omega), Nat.add_sub_cancel_left, present]
  have held := after.pinned _ _ replaced
  rw [before.pinned _ _ pinned] at held
  exact (Option.some.inj held).symm

/-- The bytes to compare with fit. -/
theorem fits_filter (pattern : Pattern) : pattern.Fits pattern.filter where
  length_le := Nat.le_of_eq pattern.length_filter.symm
  pinned := by
    intro index pin present
    rw [filter, List.getElem?_map, present]
    rfl

end Pattern

end BleBeacon
