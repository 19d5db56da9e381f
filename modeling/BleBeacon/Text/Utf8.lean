/-!
# Text in UTF-8 bytes

Buffers are sized in bytes while texts are made of characters. `byteLength` measures a text, and
`excerpt` is its longest beginning, in whole characters, that fits a number of bytes. `utf8` gives the
bytes themselves: they are as many as measured, they determine the text, and if the text is visible,
that is without control characters, none of them is below a space.
-/

namespace BleBeacon.Text

/-- The number of bytes of a text in UTF-8. -/
def byteLength : List Char → Nat
  | [] => 0
  | char :: rest => char.utf8Size + byteLength rest

/-- The bytes of a text in UTF-8. -/
def utf8 (text : List Char) : List UInt8 :=
  text.flatMap String.utf8EncodeChar

/-- No character of the text is below a space. -/
def Visible (text : List Char) : Prop :=
  ∀ char ∈ text, 0x20 ≤ char.toNat

/-- The characters of a text up to the first one that does not fit `budget` bytes. -/
def excerpt (budget : Nat) : List Char → List Char
  | [] => []
  | char :: rest =>
      if char.utf8Size ≤ budget then
        char :: excerpt (budget - char.utf8Size) rest
      else
        []

@[simp] theorem byteLength_nil : byteLength [] = 0 := rfl

@[simp] theorem byteLength_cons (char : Char) (text : List Char) :
    byteLength (char :: text) = char.utf8Size + byteLength text := rfl

@[simp] theorem byteLength_append (left right : List Char) :
    byteLength (left ++ right) = byteLength left + byteLength right := by
  induction left with
  | nil => simp
  | cons char rest ih => simp [ih, Nat.add_assoc]

theorem byteLength_excerpt_le (budget : Nat) (text : List Char) :
    byteLength (excerpt budget text) ≤ budget := by
  induction text generalizing budget with
  | nil => simp [excerpt]
  | cons char rest ih =>
      by_cases fits : char.utf8Size ≤ budget
      · have := ih (budget - char.utf8Size)
        simp [excerpt, fits]
        omega
      · simp [excerpt, fits]

theorem excerpt_isPrefix (budget : Nat) (text : List Char) : excerpt budget text <+: text := by
  induction text generalizing budget with
  | nil => simp [excerpt]
  | cons char rest ih =>
      by_cases fits : char.utf8Size ≤ budget <;> simp [excerpt, fits, ih]

/-- The excerpt is the longest: every beginning that fits is a beginning of it. -/
theorem isPrefix_excerpt {budget : Nat} {front text : List Char} (starts : front <+: text)
    (short : byteLength front ≤ budget) : front <+: excerpt budget text := by
  induction text generalizing front budget with
  | nil => simpa [excerpt] using starts
  | cons char text ih =>
      cases front with
      | nil => exact List.nil_prefix
      | cons head front =>
          obtain ⟨rfl, behind⟩ := List.cons_prefix_cons.1 starts
          rw [byteLength_cons] at short
          have fits : head.utf8Size ≤ budget := by omega
          rw [excerpt, if_pos fits]
          exact List.cons_prefix_cons.2 ⟨rfl, ih behind (by omega)⟩

@[simp] theorem utf8_append (left right : List Char) :
    utf8 (left ++ right) = utf8 left ++ utf8 right :=
  List.flatMap_append

@[simp] theorem length_utf8 (text : List Char) : (utf8 text).length = byteLength text := by
  induction text with
  | nil => rfl
  | cons char rest ih =>
      rw [utf8] at ih ⊢
      rw [List.flatMap_cons, List.length_append, String.length_utf8EncodeChar, ih, byteLength_cons]

/-- Texts with the same bytes are the same. -/
theorem utf8_injective {left right : List Char} (same : utf8 left = utf8 right) : left = right := by
  have encoded : left.utf8Encode = right.utf8Encode := congrArg List.toByteArray same
  rw [← String.toByteArray_ofList, ← String.toByteArray_ofList, String.toByteArray_inj] at encoded
  exact String.ofList_injective encoded

/-- The bytes of a visible text are not below a space either: all bytes of a character that takes
several have the top bit. -/
theorem Visible.space_le {text : List Char} (visible : Visible text) {byte : UInt8}
    (member : byte ∈ utf8 text) : 0x20 ≤ byte := by
  obtain ⟨char, held, inside⟩ := List.mem_flatMap.1 member
  have high : 0x20 ≤ char.val.toNat := visible char held
  have byteOf : ∀ {number : Nat}, byte = UInt8.ofNat number → 0x20 ≤ number → number < 256 →
      0x20 ≤ byte := by
    intro number equal low bound
    rw [equal, UInt8.le_iff_toNat_le, UInt8.toNat_ofNat_of_lt' bound]
    exact low
  revert inside
  fun_cases String.utf8EncodeChar char with
  | case1 =>
      intro inside
      exact byteOf (List.mem_singleton.1 inside) high (by omega)
  | case2 =>
      intro inside
      simp only [List.mem_cons, List.not_mem_nil, or_false] at inside
      rcases inside with equal | equal <;> exact byteOf equal (by omega) (by omega)
  | case3 =>
      intro inside
      simp only [List.mem_cons, List.not_mem_nil, or_false] at inside
      rcases inside with equal | equal | equal <;> exact byteOf equal (by omega) (by omega)
  | case4 =>
      intro inside
      simp only [List.mem_cons, List.not_mem_nil, or_false] at inside
      rcases inside with equal | equal | equal | equal <;>
        exact byteOf equal (by omega) (by omega)

end BleBeacon.Text
