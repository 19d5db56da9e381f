import BleBeacon.Text.Decimal
import BleBeacon.Text.Hex
import BleBeacon.Uuid
import Mathlib.Algebra.GroupWithZero.Nat

/-!
# What numerals denote

Readers of numerals take the texts that they should and no others. A decimal numeral is judged by the
value of its digits, so leading zeros are free; a hexadecimal text and the text of a UUID are judged
by what they are in lower case, so either case is free.
-/

namespace BleBeacon.Text.Decimal

/-- A number in decimal digits, at least one and with any number of leading zeros. -/
structure Spells (text : List Char) (number : Nat) : Prop where
  nonempty : text ≠ []
  digits : ∀ char ∈ text, char.isDigit = true
  value : Nat.ofDigitChars 10 text 0 = number

/-- A number in decimal digits behind an optional sign. -/
inductive SpellsSigned : List Char → Int → Prop
  | unsigned {digits : List Char} {number : Nat} :
      Spells digits number → SpellsSigned digits number
  | plus {digits : List Char} {number : Nat} :
      Spells digits number → SpellsSigned ('+' :: digits) number
  | minus {digits : List Char} {number : Nat} :
      Spells digits number → SpellsSigned ('-' :: digits) (-number)

theorem nat?_eq_some_iff {text : List Char} {number : Nat} :
    nat? text = some number ↔ Spells text number := by
  simp only [nat?, List.all_eq_true, Option.ite_none_right_eq_some, Option.some.injEq]
  constructor
  · rintro ⟨⟨nonempty, digits⟩, value⟩
    exact ⟨nonempty, digits, value⟩
  · rintro ⟨nonempty, digits, value⟩
    exact ⟨⟨nonempty, digits⟩, value⟩

theorem spells_ofNat (number : Nat) : Spells (ofNat number) number :=
  nat?_eq_some_iff.1 (nat?_ofNat number)

theorem int?_eq_some_iff {text : List Char} {number : Int} :
    int? text = some number ↔ SpellsSigned text number := by
  constructor
  · intro read
    unfold int? at read
    split at read
    · obtain ⟨natural, digits, rfl⟩ := Option.map_eq_some_iff.1 read
      exact .minus (nat?_eq_some_iff.1 digits)
    · obtain ⟨natural, digits, rfl⟩ := Option.map_eq_some_iff.1 read
      exact .plus (nat?_eq_some_iff.1 digits)
    · obtain ⟨natural, digits, rfl⟩ := Option.map_eq_some_iff.1 read
      exact .unsigned (nat?_eq_some_iff.1 digits)
  · intro spelled
    cases spelled with
    | minus digits => simp [int?, nat?_eq_some_iff.2 digits]
    | plus digits => simp [int?, nat?_eq_some_iff.2 digits]
    | unsigned digits =>
        unfold int?
        split
        · exact absurd (digits.digits '-' (by simp)) (by decide)
        · exact absurd (digits.digits '+' (by simp)) (by decide)
        · simp [nat?_eq_some_iff.2 digits]

theorem spellsSigned_ofInt (number : Int) : SpellsSigned (ofInt number) number := by
  cases number with
  | ofNat natural => exact .unsigned (spells_ofNat natural)
  | negSucc natural => exact .minus (spells_ofNat (natural + 1))

theorem ofNat_injective : Function.Injective ofNat := by
  intro left right same
  have read := congrArg nat? same
  rw [nat?_ofNat, nat?_ofNat] at read
  exact Option.some.inj read

theorem ofInt_injective : Function.Injective ofInt := by
  intro left right same
  have read := int?_eq_some_iff.2 (spellsSigned_ofInt left)
  rw [same, int?_eq_some_iff.2 (spellsSigned_ofInt right)] at read
  exact (Option.some.inj read).symm

/-- A 32-bit number is read from exactly the numerals of its value. -/
theorem int32?_eq_some_iff {text : List Char} {number : Int32} :
    int32? text = some number ↔ SpellsSigned text number.toInt := by
  have low := number.minValue_le_toInt
  have high := number.toInt_le
  rw [← int?_eq_some_iff, int32?]
  cases int? text with
  | none => simp
  | some value =>
      simp only [Option.ite_none_right_eq_some, Option.some.injEq]
      constructor
      · rintro ⟨⟨least, most⟩, rfl⟩
        exact (Int32.toInt_ofInt_of_le least (Int.lt_add_one_of_le most)).symm
      · rintro rfl
        exact ⟨⟨low, high⟩, Int32.ofInt_toInt number⟩

end BleBeacon.Text.Decimal

namespace BleBeacon.Text.Hex

theorem encode_cons (byte : UInt8) (bytes : List UInt8) :
    encode (byte :: bytes) = Nat.digitChar (byte.toNat / 16) ::
      Nat.digitChar (byte.toNat % 16) :: encode bytes := rfl

theorem encode_injective : Function.Injective encode := by
  intro left right same
  have read := congrArg decode? same
  rw [decode?_encode, decode?_encode] at read
  exact Option.some.inj read

theorem encode_append (left right : List UInt8) :
    encode (left ++ right) = encode left ++ encode right :=
  List.flatMap_append

theorem encode_flatten (groups : List (List UInt8)) :
    encode groups.flatten = (groups.map encode).flatten := by
  induction groups with
  | nil => rfl
  | cons group groups ih =>
      rw [List.flatten_cons, encode_append, ih, List.map_cons, List.flatten_cons]

/-- Only an ASCII character has an ASCII lower case. -/
theorem ascii_of_toLower {char : Char} (ascii : char.toLower.toNat < 128) : char.toNat < 128 := by
  unfold Char.toLower at ascii
  split at ascii
  · rename_i upper
    have last : char.toNat ≤ 'Z'.toNat := UInt32.le_iff_toNat_le.1 upper.2
    exact Nat.lt_of_le_of_lt last (by decide)
  · exact ascii

theorem ascii_of_digit? {char : Char} {value : Nat} (read : digit? char = some value) :
    char.toNat < 128 := by
  have below : ∀ {last : Char}, char ≤ last → last.toNat < 128 → char.toNat < 128 :=
    fun ordered ascii => Nat.lt_of_le_of_lt (UInt32.le_iff_toNat_le.1 ordered) ascii
  unfold digit? at read
  split at read
  · rename_i range
    exact below range.2 (by decide)
  · split at read
    · rename_i range
      exact below range.2 (by decide)
    · split at read
      · rename_i range
        exact below range.2 (by decide)
      · simp at read

/-- A digit is a character whose lower case is the written digit of its value. -/
theorem digit?_eq_some_iff {char : Char} {value : Nat} :
    digit? char = some value ↔ value < 16 ∧ char.toLower = Nat.digitChar value := by
  -- Both sides need an ASCII character, and for these a table decides.
  have table : ∀ code : Fin 128, ∀ digit : Fin 16,
      digit? (Char.ofNat code) = some digit.val ↔
        (Char.ofNat code).toLower = Nat.digitChar digit := by
    decide +kernel
  have small : ∀ code : Fin 128, ∀ digit ∈ digit? (Char.ofNat code), digit < 16 := by
    decide
  have digits : ∀ digit : Fin 16, (Nat.digitChar digit).toNat < 128 := by
    decide
  constructor
  · intro read
    have ascii := ascii_of_digit? read
    rw [← Char.ofNat_toNat char] at read ⊢
    have bound := small ⟨char.toNat, ascii⟩ value read
    exact ⟨bound, (table ⟨char.toNat, ascii⟩ ⟨value, bound⟩).1 read⟩
  · rintro ⟨bound, lower⟩
    have ascii : char.toNat < 128 := ascii_of_toLower (lower ▸ digits ⟨value, bound⟩)
    rw [← Char.ofNat_toNat char] at lower ⊢
    exact (table ⟨char.toNat, ascii⟩ ⟨value, bound⟩).2 lower

/-- Digits of either case spell the bytes whose lower-case encoding they are. -/
theorem decode?_eq_some_iff {text : List Char} {bytes : List UInt8} :
    decode? text = some bytes ↔ text.map Char.toLower = encode bytes := by
  induction text using decode?.induct generalizing bytes with
  | case1 =>
      cases bytes with
      | nil => simp [decode?, encode]
      | cons byte bytes => simp [decode?, encode_cons]
  | case2 char =>
      cases bytes with
      | nil => simp [decode?, encode]
      | cons byte bytes => simp [decode?, encode_cons]
  | case3 high low rest ih =>
      simp only [decode?, Option.bind_eq_bind, Option.bind_eq_some_iff, Option.pure_def,
        Option.some.injEq, digit?_eq_some_iff, ih]
      constructor
      · rintro ⟨first, ⟨firstSmall, firstLower⟩, second, ⟨secondSmall, secondLower⟩,
          tail, tailLower, rfl⟩
        have whole : (UInt8.ofNat (16 * first + second)).toNat = 16 * first + second :=
          UInt8.toNat_ofNat_of_lt' (by change _ < 256; omega)
        rw [List.map_cons, List.map_cons, tailLower, firstLower, secondLower, encode_cons, whole]
        congr 3 <;> omega
      · intro lower
        cases bytes with
        | nil => simp [encode] at lower
        | cons byte bytes =>
            have bound := byte.toNat_lt
            simp only [List.map_cons, encode_cons, List.cons.injEq] at lower
            obtain ⟨highLower, lowLower, restLower⟩ := lower
            refine ⟨byte.toNat / 16, ⟨by omega, highLower⟩, byte.toNat % 16,
              ⟨by omega, lowLower⟩, bytes, restLower, ?_⟩
            rw [show 16 * (byte.toNat / 16) + byte.toNat % 16 = byte.toNat by omega,
              UInt8.ofNat_toNat]

theorem exists_digit_of_mem_encode {bytes : List UInt8} {char : Char}
    (member : char ∈ encode bytes) : ∃ digit < 16, char = Nat.digitChar digit := by
  obtain ⟨byte, _, member⟩ := List.mem_flatMap.1 member
  have bound := byte.toNat_lt
  simp only [pair, List.mem_cons, List.not_mem_nil, or_false] at member
  rcases member with rfl | rfl
  · exact ⟨byte.toNat / 16, by omega, rfl⟩
  · exact ⟨byte.toNat % 16, by omega, rfl⟩

/-- Every character of a text that is an encoding in lower case is a digit. -/
theorem digit?_isSome_of_encode {text : List Char} {bytes : List UInt8}
    (lower : text.map Char.toLower = encode bytes) {char : Char} (member : char ∈ text) :
    (digit? char).isSome = true := by
  have lowered : char.toLower ∈ encode bytes := lower ▸ List.mem_map_of_mem member
  obtain ⟨digit, small, equal⟩ := exists_digit_of_mem_encode lowered
  rw [digit?_eq_some_iff.2 ⟨small, equal⟩]
  rfl

theorem isAlphanum_of_digit? {char : Char} (digit : (digit? char).isSome = true) :
    char.isAlphanum = true := by
  have table : ∀ code : Fin 128, (digit? (Char.ofNat code)).isSome = true →
      (Char.ofNat code).isAlphanum = true := by
    decide
  obtain ⟨value, read⟩ := Option.isSome_iff_exists.1 digit
  have ascii := ascii_of_digit? read
  rw [← Char.ofNat_toNat char] at digit ⊢
  exact table ⟨char.toNat, ascii⟩ digit

end BleBeacon.Text.Hex

namespace BleBeacon.Uuid

open Text

/-- A map that keeps a separator apart from all other characters keeps the pieces between them. -/
theorem splitOn_map {separator : Char} {image : Char → Char}
    (apart : ∀ char, image char = separator ↔ char = separator) (text : List Char) :
    (text.map image).splitOn separator = (text.splitOn separator).map (List.map image) := by
  induction text with
  | nil => simp
  | cons char rest ih =>
      rw [List.map_cons, List.splitOn_cons_eq_if_modifyHead, List.splitOn_cons_eq_if_modifyHead, ih]
      by_cases same : char = separator
      · simp [same, (apart separator).2 rfl]
      · have other : image char ≠ separator := fun equal => same ((apart char).1 equal)
        cases rest.splitOn separator <;> simp [same, other]

theorem toLower_eq_hyphen_iff (char : Char) : char.toLower = '-' ↔ char = '-' := by
  have table : ∀ code : Fin 128, (Char.ofNat code).toLower = '-' → Char.ofNat code = '-' := by
    decide
  constructor
  · intro lower
    have ascii : char.toNat < 128 := Hex.ascii_of_toLower (lower ▸ by decide)
    rw [← Char.ofNat_toNat char] at lower ⊢
    exact table ⟨char.toNat, ascii⟩ lower
  · rintro rfl
    rfl

theorem flatten_pieces {sizes : List Nat} {octets : List UInt8}
    (total : sizes.sum = octets.length) : (pieces sizes octets).flatten = octets := by
  induction sizes generalizing octets with
  | nil => simpa [pieces, eq_comm] using total
  | cons size sizes ih =>
      rw [List.sum_cons] at total
      rw [pieces, List.flatten_cons, ih (by rw [List.length_drop]; omega), List.take_append_drop]

theorem map_length_pieces {sizes : List Nat} {octets : List UInt8}
    (total : sizes.sum ≤ octets.length) : (pieces sizes octets).map List.length = sizes := by
  induction sizes generalizing octets with
  | nil => rfl
  | cons size sizes ih =>
      rw [List.sum_cons] at total
      rw [pieces, List.map_cons, ih (by rw [List.length_drop]; omega), List.length_take]
      congr
      omega

/-- Digits in groups of given lengths are the digits of the pieces of the bytes. -/
theorem eq_map_encode_pieces {sizes : List Nat} {groups : List (List Char)} {octets : List UInt8}
    (total : sizes.sum ≤ octets.length)
    (lengths : groups.map List.length = sizes.map (2 * ·))
    (digits : groups.flatten = Hex.encode octets) :
    groups = (pieces sizes octets).map Hex.encode := by
  induction sizes generalizing groups octets with
  | nil => simpa [pieces] using lengths
  | cons size sizes ih =>
      cases groups with
      | nil => simp at lengths
      | cons group groups =>
          simp only [List.map_cons, List.cons.injEq] at lengths
          rw [List.sum_cons] at total
          have split : group ++ groups.flatten =
              Hex.encode (octets.take size) ++ Hex.encode (octets.drop size) := by
            rw [← List.flatten_cons, digits, ← Hex.encode_append, List.take_append_drop]
          have width : group.length = (Hex.encode (octets.take size)).length := by
            rw [Hex.length_encode, List.length_take]
            omega
          obtain ⟨front, back⟩ := List.append_inj split width
          have tail := ih (by rw [List.length_drop]; omega) lengths.2 back
          rw [pieces, List.map_cons, front, ← tail]

@[simp] theorem length_text (uuid : Uuid) : uuid.text.length = 36 := by
  simp [text, groupSizes, pieces, List.intercalate, List.intersperse, uuid.length_octets]

/-- Every character of a text that is the text of a UUID in lower case is a digit or a hyphen. -/
theorem digit?_isSome_of_text {value : List Char} {uuid : Uuid}
    (lower : value.map Char.toLower = uuid.text) {char : Char} (member : char ∈ value) :
    char = '-' ∨ (Hex.digit? char).isSome = true := by
  have lowered : char.toLower ∈ uuid.text := lower ▸ List.mem_map_of_mem member
  simp only [text, groupSizes, pieces, List.map_cons, List.map_nil, List.intercalate,
    List.intersperse, List.flatten_cons, List.flatten_nil, List.mem_append, List.mem_singleton,
    List.append_nil] at lowered
  by_cases hyphen : char.toLower = '-'
  · exact .inl ((toLower_eq_hyphen_iff char).1 hyphen)
  · right
    have encoded : ∃ piece, char.toLower ∈ Hex.encode piece := by
      simp only [hyphen, false_or] at lowered
      rcases lowered with inside | inside | inside | inside | inside <;> exact ⟨_, inside⟩
    obtain ⟨piece, member⟩ := encoded
    obtain ⟨digit, small, equal⟩ := Hex.exists_digit_of_mem_encode member
    rw [Hex.digit?_eq_some_iff.2 ⟨small, equal⟩]
    rfl

/-- A UUID is read from exactly the texts that are its text in lower case. -/
theorem read?_eq_some_iff {value : List Char} {uuid : Uuid} :
    read? value = some uuid ↔ value.map Char.toLower = uuid.text := by
  have total : groupSizes.sum = uuid.octets.length := uuid.length_octets.symm
  have lowered := splitOn_map toLower_eq_hyphen_iff value
  constructor
  · intro read
    simp only [read?, Option.ite_none_right_eq_some, Option.bind_eq_some_iff] at read
    obtain ⟨lengths, octets, digits, whole⟩ := read
    have same : octets = uuid.octets := by
      simp only [ofOctets?, Option.dite_none_right_eq_some, Option.some.injEq] at whole
      obtain ⟨sixteen, rfl⟩ := whole
      rfl
    rw [Hex.decode?_eq_some_iff, List.map_flatten, same] at digits
    have groups := eq_map_encode_pieces (Nat.le_of_eq total)
      (by simpa [Function.comp_def] using lengths) digits
    rw [text, ← groups, ← lowered, List.intercalate_splitOn]
  · intro lower
    have apart : ∀ group ∈ (pieces groupSizes uuid.octets).map Hex.encode, '-' ∉ group := by
      intro group member hyphen
      obtain ⟨piece, _, rfl⟩ := List.mem_map.1 member
      have digit := Hex.digit?_isSome_of_encode
        (Hex.decode?_eq_some_iff.1 (Hex.decode?_encode piece)) hyphen
      exact absurd digit (by decide)
    rw [lower, text, List.splitOn_intercalate '-' apart (by simp [groupSizes, pieces])] at lowered
    have lengths : (value.splitOn '-').map List.length = groupSizes.map (2 * ·) := by
      have widths := congrArg (List.map List.length) lowered
      have sizes := congrArg (List.map (2 * ·)) (map_length_pieces (Nat.le_of_eq total))
      simp only [List.map_map, Function.comp_def, Hex.length_encode, List.length_map]
        at widths sizes
      exact widths.symm.trans sizes
    have digits : Hex.decode? (value.splitOn '-').flatten = some uuid.octets := by
      rw [Hex.decode?_eq_some_iff, List.map_flatten, ← lowered, ← Hex.encode_flatten,
        flatten_pieces total]
    simp only [read?]
    rw [if_pos lengths, digits, Option.bind_some, ofOctets?_octets]

end BleBeacon.Uuid
