/-!
# Blank characters

The characters with the Unicode property `White_Space`, and the removal of blanks at both ends of a
text. Zero-width characters such as U+200B and U+FEFF do not have the property.
-/

namespace BleBeacon.Text

/-- The code points with the property `White_Space`, as inclusive ranges. -/
def blankRanges : List (Nat × Nat) :=
  [(0x0009, 0x000D), (0x0020, 0x0020), (0x0085, 0x0085), (0x00A0, 0x00A0), (0x1680, 0x1680),
    (0x2000, 0x200A), (0x2028, 0x2029), (0x202F, 0x202F), (0x205F, 0x205F), (0x3000, 0x3000)]

def isBlank (char : Char) : Bool :=
  blankRanges.any fun (low, high) => decide (low ≤ char.toNat) && decide (char.toNat ≤ high)

/-- A text without the blanks at its two ends. -/
def trim (text : List Char) : List Char :=
  ((text.dropWhile isBlank).reverse.dropWhile isBlank).reverse

/-- Trimming keeps a text whose two ends are not blank, in particular one without blanks. -/
theorem trim_eq_self {text : List Char} (solid : ∀ char ∈ text, isBlank char = false) :
    trim text = text := by
  have keep : ∀ {chars : List Char}, (∀ char ∈ chars, isBlank char = false) →
      chars.dropWhile isBlank = chars := by
    intro chars every
    cases chars with
    | nil => rfl
    | cons char rest => simp [every char]
  rw [trim, keep solid, keep (by simpa using solid), List.reverse_reverse]

end BleBeacon.Text
