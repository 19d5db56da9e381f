/-!
# Hexadecimal text

Bytes are written as two digits each, most significant digit first. Reading takes digits of either
case and gives back what was written.
-/

namespace BleBeacon.Text.Hex

/-- The two lower-case digits of a byte. -/
def pair (byte : UInt8) : List Char :=
  [Nat.digitChar (byte.toNat / 16), Nat.digitChar (byte.toNat % 16)]

/-- The two upper-case digits of a byte. -/
def upperPair (byte : UInt8) : List Char :=
  (pair byte).map Char.toUpper

/-- Bytes as lower-case digits. -/
def encode (bytes : List UInt8) : List Char :=
  bytes.flatMap pair

/-- The value of a hexadecimal digit of either case. -/
def digit? (char : Char) : Option Nat :=
  if '0' ≤ char ∧ char ≤ '9' then some (char.toNat - '0'.toNat)
  else if 'a' ≤ char ∧ char ≤ 'f' then some (char.toNat - 'a'.toNat + 10)
  else if 'A' ≤ char ∧ char ≤ 'F' then some (char.toNat - 'A'.toNat + 10)
  else none

/-- Whether a text consists of digits, at least one. -/
def isDigits (text : List Char) : Bool :=
  !text.isEmpty && text.all fun char => (digit? char).isSome

/-- The bytes that an even number of digits spells. -/
def decode? : List Char → Option (List UInt8)
  | [] => some []
  | [_] => none
  | high :: low :: rest => do
      let high ← digit? high
      let low ← digit? low
      let bytes ← decode? rest
      return UInt8.ofNat (16 * high + low) :: bytes

theorem digit?_digitChar (value : Nat) (small : value < 16) :
    digit? (Nat.digitChar value) = some value := by
  have every : ∀ value : Fin 16, digit? (Nat.digitChar value) = some value.val := by decide
  exact every ⟨value, small⟩

@[simp] theorem length_encode (bytes : List UInt8) : (encode bytes).length = 2 * bytes.length := by
  induction bytes with
  | nil => rfl
  | cons byte bytes ih => simp_all [encode, pair]; omega

@[simp] theorem decode?_encode (bytes : List UInt8) : decode? (encode bytes) = some bytes := by
  induction bytes with
  | nil => rfl
  | cons byte bytes ih =>
      have bound := byte.toNat_lt
      have high := digit?_digitChar (byte.toNat / 16) (by omega)
      have low := digit?_digitChar (byte.toNat % 16) (by omega)
      have whole : 16 * (byte.toNat / 16) + byte.toNat % 16 = byte.toNat := by omega
      simp only [encode] at ih
      simp only [encode, List.flatMap_cons, pair, List.cons_append, List.nil_append, decode?,
        high, low, ih, Option.bind_eq_bind, Option.bind_some, whole, UInt8.ofNat_toNat]
      rfl

end BleBeacon.Text.Hex
