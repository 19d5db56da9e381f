import BleBeacon.Proofs.Bytes
import BleBeacon.Proofs.Checked.Reading
import Mathlib.Algebra.BigOperators.Fin
import Mathlib.Data.Int.ModEq

/-!
# Integers of fields

Integers are read by shifting bytes into a word, from the most significant one on: from the front of
big-endian bytes, from the back of little-endian ones. Up to eight bytes no bit leaves the word, so
what is read is the sum of the bytes times the powers of 256 at their places. A sign is spread by two
shifts; up to four bytes these and the narrowing behind them give the one number of that width that
is congruent to the unsigned one.
-/

namespace BleBeacon.Bytes

/-- Bytes shifted one by one into a word, the last one first if they are little-endian. -/
def unsigned (bytes : List UInt8) (littleEndian : Bool) : UInt64 :=
  if littleEndian then
    bytes.foldr (fun byte total => (total <<< 8) ||| byte.toUInt64) 0
  else
    word bytes

theorem unsigned_little (bytes : List UInt8) : unsigned bytes true = word bytes.reverse :=
  List.foldl_reverse.symm

/-- Most significant first is the order in which a range is read. -/
theorem word_orient (bytes : List UInt8) (littleEndian : Bool) :
    word (if littleEndian then bytes.reverse else bytes) = unsigned bytes littleEndian := by
  cases littleEndian with
  | true => exact (unsigned_little bytes).symm
  | false => rfl

theorem value_cons (byte : UInt8) (bytes : List UInt8) :
    value (byte :: bytes) = byte.toNat * 256 ^ bytes.length + value bytes := by
  induction bytes using List.reverseRecOn with
  | nil => simp [value]
  | append_singleton bytes last ih =>
      rw [← List.cons_append, value_append_singleton, value_append_singleton, ih,
        List.length_append, List.length_singleton, Nat.pow_succ]
      ring

/-- The value of bytes is the sum of all of them times the powers at their places. -/
theorem value_eq_sum (bytes : List UInt8) :
    value bytes = ∑ place : Fin bytes.length,
      bytes[place].toNat * 256 ^ (bytes.length - 1 - place) := by
  induction bytes with
  | nil => rfl
  | cons byte bytes ih =>
      rw [value_cons, ih]
      simp only [List.length_cons]
      rw [Fin.sum_univ_succ]
      congr 1
      refine Finset.sum_congr rfl fun place _ => ?_
      have exponent : bytes.length + 1 - 1 - (place.succ : Nat) = bytes.length - 1 - place := by
        rw [Fin.val_succ]
        omega
      rw [exponent]
      rfl

/-- A byte is shifted into a word without loss if there are at most seven bytes in it. -/
theorem toNat_word_shift {front : List UInt8} (room : front.length < 8) :
    (word front <<< 8).toNat = (word front).toNat * 256 := by
  have low : value front < 256 ^ 7 :=
    Nat.lt_of_lt_of_le (value_lt front) (Nat.pow_le_pow_right (by decide) (by omega))
  rw [UInt64.toNat_shiftLeft, toNat_word (Nat.le_of_lt room), Nat.shiftLeft_eq,
    show (8 : UInt64).toNat % 64 = 8 from rfl]
  exact Nat.mod_eq_of_lt (by omega)

/-- The number of at most four bytes in two's complement is the one within its bounds that is
congruent to their value. -/
theorem eq_signed_iff {bytes : List UInt8} (some : 1 ≤ bytes.length) (few : bytes.length ≤ 4)
    (number : Int32) :
    number = signed bytes ↔
      -2 ^ (8 * bytes.length - 1) ≤ number.toInt ∧ number.toInt < 2 ^ (8 * bytes.length - 1) ∧
        number.toInt ≡ value bytes [ZMOD 2 ^ (8 * bytes.length)] := by
  have twice : (2 : Int) ^ (8 * bytes.length) = 2 ^ (8 * bytes.length - 1) * 2 := by
    rw [← pow_succ, Nat.sub_add_cancel (by omega)]
  have size : ((2 ^ (8 * bytes.length) : Nat) : Int) = 2 ^ (8 * bytes.length) := by
    push_cast
    rfl
  have result : (signed bytes).toInt = (value bytes : Int).bmod (2 ^ (8 * bytes.length)) := by
    rw [toInt_signed few, Nat.pow_mul]
  constructor
  · rintro rfl
    obtain ⟨low, high⟩ := twice_bmod_bounds (value bytes) (8 * bytes.length)
    rw [result]
    refine ⟨by omega, by omega, ?_⟩
    rw [← size]
    exact Int.bmod_emod
  · rintro ⟨low, high, congruent⟩
    have own : number.toInt.bmod (2 ^ (8 * bytes.length)) = number.toInt :=
      Int.bmod_eq_of_le_mul_two (by omega) (by omega)
    rw [← size] at congruent
    apply Int32.toInt_inj.1
    rw [result, ← own, ← Int.emod_bmod number.toInt, congruent, Int.emod_bmod]

/-- Integers are read exactly at every width that a field can have. Of one to eight bytes no bit is
shifted out, the sum of the bytes at their places is read, little-endian bytes are read as the reversed
big-endian ones, and the low bytes of a word that fits them are read as this word. Of one to four
bytes the shifts that spread the sign are within the word, the narrowing loses nothing, and the result
is the only number of the width that is congruent to the unsigned one. -/
theorem integers_read_exactly {bytes : List UInt8} (some : 1 ≤ bytes.length)
    (short : bytes.length ≤ 8) :
    (unsigned bytes false).toNat = ∑ place : Fin bytes.length,
      bytes[place].toNat * 256 ^ (bytes.length - 1 - place) ∧
    (∀ front byte rest, bytes = front ++ byte :: rest →
      (word front <<< 8).toNat = (word front).toNat * 256) ∧
    unsigned bytes true = unsigned bytes.reverse false ∧
    (∀ range payload, ByteRange.slice range payload = .some bytes →
      (range.read payload).map word = .some (unsigned bytes range.littleEndian)) ∧
    (∀ total : UInt64, total.toNat < 256 ^ bytes.length →
      unsigned ((ofWord 8 total).drop (8 - bytes.length)) false = total) ∧
    (bytes.length ≤ 4 →
      signedChecked bytes = .ok (signed bytes) ∧
      signed bytes = (spread bytes).toInt32 ∧ (signed bytes).toInt = (spread bytes).toInt ∧
      ∀ number : Int32, number = signed bytes ↔
        -2 ^ (8 * bytes.length - 1) ≤ number.toInt ∧ number.toInt < 2 ^ (8 * bytes.length - 1) ∧
          number.toInt ≡ (unsigned bytes false).toNat [ZMOD 2 ^ (8 * bytes.length)]) := by
  have unsignedValue : (unsigned bytes false).toNat = value bytes := toNat_word short
  refine ⟨unsignedValue.trans (value_eq_sum bytes), ?_, unsigned_little bytes, ?_, ?_, ?_⟩
  · rintro front byte rest rfl
    rw [List.length_append, List.length_cons] at short
    exact toNat_word_shift (by omega)
  · intro range payload sliced
    rw [ByteRange.read, sliced, Option.map_some, Option.map_some, word_orient]
  · intro total fits
    have low := drop_ofWord (8 - bytes.length) bytes.length total
    rw [Nat.sub_add_cancel short] at low
    rw [low]
    exact word_ofWord short fits
  · intro few
    refine ⟨signedChecked_eq some short, rfl, toInt_signed_eq_toInt_spread some few, ?_⟩
    rw [unsignedValue]
    exact eq_signed_iff some few

/-- Bytes with the sign bit set, read without a sign in both orders and with one. -/
theorem integers_read_exactly_negative :
    1 ≤ [0xFF, 0x38].length ∧ [0xFF, 0x38].length ≤ 4 ∧
      (unsigned [0xFF, 0x38] false).toNat = 0xFF * 256 + 0x38 ∧
      unsigned [0xFF, 0x38] true = 0x38FF ∧
      unsigned ((ofWord 8 0xFF38).drop 6) false = 0xFF38 ∧
      signedChecked [0xFF, 0x38] = .ok (-200) := by
  have some : 1 ≤ [0xFF, 0x38].length := by decide
  have few : [0xFF, 0x38].length ≤ 4 := by decide
  obtain ⟨sum, _, reversed, _, low, sign⟩ := @integers_read_exactly [0xFF, 0x38] some (by decide)
  obtain ⟨checked, _, _, only⟩ := sign few
  have negative : -200 = signed [0xFF, 0x38] := (only (-200)).2 (by decide)
  refine ⟨some, few, sum.trans ?_, reversed.trans ?_, low 0xFF38 (by decide), ?_⟩
  · simp
  · decide
  · rw [negative]
    exact checked

end BleBeacon.Bytes
