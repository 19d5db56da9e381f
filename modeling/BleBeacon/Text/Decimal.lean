/-!
# Decimal text

Numbers are written without leading zeros and with a sign only when negative. Reading is more
liberal: leading zeros are ignored, and a signed number may start with a plus sign.
-/

namespace BleBeacon.Text.Decimal

def ofNat (number : Nat) : List Char :=
  Nat.toDigits 10 number

def ofInt : Int → List Char
  | .ofNat number => ofNat number
  | .negSucc number => '-' :: ofNat (number + 1)

/-- The number spelt by ASCII digits, at least one. -/
def nat? (text : List Char) : Option Nat :=
  if text ≠ [] ∧ text.all Char.isDigit then some (Nat.ofDigitChars 10 text 0) else none

/-- The number spelt by digits after an optional sign. -/
def int? : List Char → Option Int
  | '-' :: digits => (nat? digits).map fun number => -Int.ofNat number
  | '+' :: digits => (nat? digits).map Int.ofNat
  | digits => (nat? digits).map Int.ofNat

/-- The number spelt by digits after an optional sign, if it fits 32 bits. -/
def int32? (text : List Char) : Option Int32 :=
  match int? text with
  | none => none
  | some number =>
      if Int32.minValue.toInt ≤ number ∧ number ≤ Int32.maxValue.toInt then
        some (Int32.ofInt number)
      else
        none

theorem isDigit_of_mem_ofNat {number : Nat} {char : Char} (member : char ∈ ofNat number) :
    char.isDigit = true :=
  Nat.isDigit_of_mem_toDigits (by decide) (by decide) member

@[simp] theorem ofNat_ne_nil (number : Nat) : ofNat number ≠ [] :=
  Nat.toDigits_ne_nil

@[simp] theorem nat?_ofNat (number : Nat) : nat? (ofNat number) = some number := by
  have digits : (ofNat number).all Char.isDigit = true :=
    List.all_eq_true.2 fun _ => isDigit_of_mem_ofNat
  rw [nat?, if_pos ⟨ofNat_ne_nil number, digits⟩, ofNat,
    Nat.ofDigitChars_toDigits (by decide) (by decide)]

end BleBeacon.Text.Decimal
