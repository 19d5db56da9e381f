import BleBeacon.Bytes
import Mathlib.Algebra.Order.Ring.Int
import Mathlib.Data.List.Induction
import Mathlib.Tactic.Linarith
import Mathlib.Tactic.Ring

/-!
# Words hold the value of their bytes

A byte string of a known length is determined by its value, and up to eight bytes the word
operations compute with exactly that value: `word` loses no bit, `ofWord` writes the bytes back, and
`signed` is the two's complement number at the width of the string.
-/

namespace BleBeacon.Bytes

@[simp] theorem value_append_singleton (bytes : List UInt8) (byte : UInt8) :
    value (bytes ++ [byte]) = 256 * value bytes + byte.toNat := by
  simp [value]

theorem value_lt (bytes : List UInt8) : value bytes < 256 ^ bytes.length := by
  induction bytes using List.reverseRecOn with
  | nil => simp [value]
  | append_singleton bytes byte ih =>
      have bound := byte.toNat_lt
      rw [value_append_singleton, List.length_append, List.length_singleton, Nat.pow_succ]
      omega

/-- Byte strings of equal length and value are equal. -/
theorem value_inj {left right : List UInt8} (lengths : left.length = right.length)
    (values : value left = value right) : left = right := by
  induction left using List.reverseRecOn generalizing right with
  | nil => exact (List.length_eq_zero_iff.1 lengths.symm).symm
  | append_singleton left byte ih =>
      cases right using List.reverseRecOn with
      | nil => simp at lengths
      | append_singleton right other =>
          rw [value_append_singleton, value_append_singleton] at values
          have bound := byte.toNat_lt
          have otherBound := other.toNat_lt
          have front : left = right := ih (by simpa using lengths) (by omega)
          have last : byte = other := UInt8.toNat_inj.1 (by omega)
          rw [front, last]

/-- Nothing is shifted out of the word of at most eight bytes. -/
theorem toNat_word {bytes : List UInt8} (short : bytes.length ≤ 8) :
    (word bytes).toNat = value bytes := by
  induction bytes using List.reverseRecOn with
  | nil => rfl
  | append_singleton bytes byte ih =>
      rw [List.length_append, List.length_singleton] at short
      have front := ih (by omega)
      have room : value bytes < 256 ^ 7 :=
        Nat.lt_of_lt_of_le (value_lt bytes) (Nat.pow_le_pow_right (by decide) (by omega))
      have step : word (bytes ++ [byte]) = (word bytes <<< 8) ||| byte.toUInt64 := by
        simp [word]
      have shifted : (word bytes <<< 8).toNat = value bytes <<< 8 := by
        rw [UInt64.toNat_shiftLeft, front]
        exact Nat.mod_eq_of_lt (by rw [show (8 : UInt64).toNat % 64 = 8 from rfl]; omega)
      rw [step, UInt64.toNat_or, shifted, UInt8.toNat_toUInt64,
        ← Nat.shiftLeft_add_eq_or_of_lt byte.toNat_lt, value_append_singleton]
      omega

theorem value_ofWord (width : Nat) (total : UInt64) :
    value (ofWord width total) = total.toNat % 256 ^ width := by
  induction width generalizing total with
  | zero => simp [ofWord, value, Nat.mod_one]
  | succ width ih =>
      have front : (total >>> 8).toNat = total.toNat / 256 := by
        rw [UInt64.toNat_shiftRight, show (8 : UInt64).toNat % 64 = 8 from rfl,
          Nat.shiftRight_eq_div_pow]
      have split : total.toNat % 256 ^ (width + 1) =
          total.toNat % 256 + 256 * (total.toNat / 256 % 256 ^ width) := by
        rw [Nat.pow_succ', Nat.mod_mul]
      rw [ofWord, value_append_singleton, ih, front, UInt64.toNat_toUInt8, split]
      omega

/-- The bytes of the word of at most eight bytes are these bytes. -/
theorem ofWord_word {bytes : List UInt8} (short : bytes.length ≤ 8) :
    ofWord bytes.length (word bytes) = bytes := by
  apply value_inj (length_ofWord _ _)
  rw [value_ofWord, toNat_word short, Nat.mod_eq_of_lt (value_lt bytes)]

/-- The word of the low bytes of a word that fits them is this word. -/
theorem word_ofWord {width : Nat} (short : width ≤ 8) {total : UInt64}
    (fits : total.toNat < 256 ^ width) : word (ofWord width total) = total := by
  apply UInt64.toNat_inj.1
  rw [toNat_word (by simpa using short), value_ofWord, Nat.mod_eq_of_lt fits]

/-- Comparing words is comparing bytes, as long as the words hold them all. -/
theorem word_eq_iff {bytes : List UInt8} {total : UInt64} (short : bytes.length ≤ 8)
    (fits : total.toNat < 256 ^ bytes.length) :
    word bytes = total ↔ bytes = ofWord bytes.length total := by
  constructor
  · intro equal
    rw [← equal, ofWord_word short]
  · intro equal
    rw [equal]
    exact word_ofWord (by simpa using short) (by simpa using fits)

/-! ## Two's complement -/

theorem twice_bmod_bounds (number : Int) (width : Nat) :
    -2 ^ width ≤ number.bmod (2 ^ width) * 2 ∧ number.bmod (2 ^ width) * 2 < 2 ^ width := by
  have size : 0 < 2 ^ width := Nat.pow_pos (by decide)
  have low := Int.le_bmod (x := number) size
  have high := Int.bmod_lt (x := number) size
  push_cast at low high
  omega

/-- Moving a number to the top of a word and back down spreads its sign. -/
theorem bmod_shift_up_down (number : Int) (width unused : Nat) :
    (number * 2 ^ unused).bmod (2 ^ (width + unused)) >>> unused = number.bmod (2 ^ width) := by
  have scale : (0 : Int) < 2 ^ unused := Int.pow_pos (by decide)
  obtain ⟨low, high⟩ := twice_bmod_bounds number width
  have multiple : number * 2 ^ unused = number.bmod (2 ^ width) * 2 ^ unused +
      ((2 ^ (width + unused) : Nat) : Int) * number.bdiv (2 ^ width) := by
    have whole := Int.bmod_eq_self_sub_mul_bdiv number (2 ^ width)
    push_cast at whole ⊢
    rw [whole]
    ring
  have scaled : (number * 2 ^ unused).bmod (2 ^ (width + unused)) =
      number.bmod (2 ^ width) * 2 ^ unused := by
    rw [multiple, Int.add_mul_bmod_self_left]
    have lowScaled := Int.mul_le_mul_of_nonneg_right low scale.le
    have highScaled := Int.mul_lt_mul_of_pos_right high scale
    apply Int.bmod_eq_of_le_mul_two
    · push_cast
      rw [pow_add]
      linarith
    · push_cast
      rw [pow_add]
      linarith
  rw [scaled, Int.shiftRight_eq_div_pow]
  exact Int.mul_ediv_cancel _ (by simp)

/-- The shift amounts of `signed` for one to four bytes, as a left and as a right shift reads them. -/
theorem signed_shift {length : Nat} (positive : 0 < length) (short : length ≤ 4) :
    (UInt64.ofNat (64 - 8 * length)).toNat % 64 = 64 - 8 * length ∧
      ((UInt64.ofNat (64 - 8 * length)).toInt64.toBitVec.smod 64).toNat = 64 - 8 * length := by
  have every : ∀ length : Fin 5, 0 < length.val →
      (UInt64.ofNat (64 - 8 * length.val)).toNat % 64 = 64 - 8 * length.val ∧
        ((UInt64.ofNat (64 - 8 * length.val)).toInt64.toBitVec.smod 64).toNat =
          64 - 8 * length.val := by decide
  exact every ⟨length, by omega⟩ positive

/-- The word of `signed` whose sign is spread, before it is narrowed. -/
def spread (bytes : List UInt8) : Int64 :=
  let unused := UInt64.ofNat (64 - 8 * bytes.length)
  (word bytes <<< unused).toInt64 >>> unused.toInt64

/-- The spread word of one to four bytes is their two's complement number. -/
theorem toInt_spread {bytes : List UInt8} (positive : 0 < bytes.length)
    (short : bytes.length ≤ 4) :
    (spread bytes).toInt = (value bytes : Int).bmod (2 ^ (8 * bytes.length)) := by
  obtain ⟨up, down⟩ := signed_shift positive short
  have bits : 256 ^ bytes.length = 2 ^ (8 * bytes.length) := by
    rw [Nat.pow_mul]
  have fits : value bytes < 2 ^ (8 * bytes.length) := bits ▸ value_lt bytes
  have width : 8 * bytes.length + (64 - 8 * bytes.length) = 64 := by omega
  have moved : (word bytes <<< UInt64.ofNat (64 - 8 * bytes.length)).toNat =
      value bytes * 2 ^ (64 - 8 * bytes.length) := by
    rw [UInt64.toNat_shiftLeft, up, toNat_word (by omega), Nat.shiftLeft_eq]
    apply Nat.mod_eq_of_lt
    calc value bytes * 2 ^ (64 - 8 * bytes.length)
        < 2 ^ (8 * bytes.length) * 2 ^ (64 - 8 * bytes.length) :=
          Nat.mul_lt_mul_of_pos_right fits (Nat.pow_pos (by decide))
      _ = 2 ^ 64 := by rw [← Nat.pow_add, width]
  have back := bmod_shift_up_down (value bytes) (8 * bytes.length) (64 - 8 * bytes.length)
  rw [width] at back
  rw [spread, ← Int64.toInt_toBitVec, Int64.toBitVec_shiftRight, BitVec.sshiftRight',
    BitVec.toInt_sshiftRight, down, UInt64.toBitVec_toInt64, BitVec.toInt_eq_toNat_bmod,
    UInt64.toNat_toBitVec, moved]
  push_cast
  exact back

/-- Nothing is lost when the spread word of at most four bytes is narrowed. -/
theorem toInt_signed_eq_toInt_spread {bytes : List UInt8} (positive : 0 < bytes.length)
    (short : bytes.length ≤ 4) : (signed bytes).toInt = (spread bytes).toInt := by
  obtain ⟨low, high⟩ := twice_bmod_bounds (value bytes) (8 * bytes.length)
  have small : (2 : Int) ^ (8 * bytes.length) ≤ 2 ^ 32 :=
    pow_le_pow_right₀ (by decide) (by omega)
  have narrowed : signed bytes = (spread bytes).toInt32 := rfl
  rw [narrowed, Int64.toInt_toInt32, toInt_spread positive short]
  apply Int.bmod_eq_of_le_mul_two
  · push_cast
    linarith
  · push_cast
    linarith

/-- The two's complement number of at most four bytes. -/
theorem toInt_signed {bytes : List UInt8} (short : bytes.length ≤ 4) :
    (signed bytes).toInt = (value bytes : Int).bmod (256 ^ bytes.length) := by
  rcases Nat.eq_zero_or_pos bytes.length with none | positive
  · rw [List.length_eq_zero_iff.1 none]
    rfl
  · rw [toInt_signed_eq_toInt_spread positive short, toInt_spread positive short, Nat.pow_mul]

example : (signed [0xFF, 0x38]).toInt = -200 := by decide

end BleBeacon.Bytes
