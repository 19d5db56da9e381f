import BleBeacon.Layout.Token
import BleBeacon.Text.Blank
import BleBeacon.Proofs.Numerals

/-!
# The grammar of layout tokens

The texts that denote a field, one rule for each form of a token, stated without the reader: a letter
and a colon, the range as two decimal numerals, and the value that the kind of field asks for. Rules
bound the offsets and the width of the range. The reader cuts a token at separators, so what matters
about the pieces of a rule is that their characters are plain: no separator and no blank.
-/

namespace BleBeacon

open Text

/-! ## Rules -/

/-- Two offsets in order, within a payload. The suffix `l` marks little-endian bytes. -/
inductive ByteRange.Spelling : List Char → ByteRange → Prop
  | bigEndian {firstDigits lastDigits : List Char} {first last : Nat} :
      Decimal.Spells firstDigits first → Decimal.Spells lastDigits last →
      first ≤ last → last ≤ 253 →
      Spelling (firstDigits ++ '-' :: lastDigits) ⟨first, last, false⟩
  | littleEndian {firstDigits lastDigits : List Char} {first last : Nat} :
      Decimal.Spells firstDigits first → Decimal.Spells lastDigits last →
      first ≤ last → last ≤ 253 →
      Spelling (firstDigits ++ '-' :: lastDigits ++ ['l']) ⟨first, last, true⟩

/-- Four digits spell an assigned number and a hyphenated text a full UUID, in either case. The bytes
are spelled most significant first and transmitted in reverse. -/
inductive ServiceUuid.Spelling : List Char → ServiceUuid → Prop
  | assigned {value : List Char} {bytes : List UInt8} {number : UInt16} :
      value.map Char.toLower = Hex.encode bytes → bytes.length = 2 →
      (ServiceUuid.assigned number).onAir = bytes.reverse → Spelling value (.assigned number)
  | full {value : List Char} {bytes : List UInt8} {uuid : Uuid} :
      value.map Char.toLower =
        ['-'].intercalate ((Uuid.pieces [4, 2, 2, 2, 6] bytes).map Hex.encode) →
      bytes.length = 16 →
      (ServiceUuid.full uuid).onAir = bytes.reverse → Spelling value (.full uuid)

namespace Field

/-- The tokens of a layout text that denote a field. -/
inductive Spelling : List Char → Field → Prop
  | matcher {range value : List Char} {matcher : Matcher} {bytes : List UInt8} :
      ByteRange.Spelling range matcher.range → matcher.range.littleEndian = false →
      matcher.range.last - matcher.range.first + 1 ≤ 8 →
      value.map Char.toLower = Hex.encode bytes →
      bytes.length = matcher.range.last - matcher.range.first + 1 →
      matcher.expected.toNat = Bytes.value bytes →
      Spelling ('m' :: ':' :: range ++ '=' :: value) (.matcher matcher)
  | service {range value : List Char} {service : ServiceField} :
      ByteRange.Spelling range service.range → service.range.littleEndian = false →
      service.range.last - service.range.first + 1 = service.uuid.onAir.length →
      ServiceUuid.Spelling value service.uuid →
      Spelling ('s' :: ':' :: range ++ '=' :: value) (.service service)
  | identifier {range : List Char} {bytes : ByteRange} :
      ByteRange.Spelling range bytes → bytes.last - bytes.first + 1 ≤ 32 →
      Spelling ('i' :: ':' :: range) (.identifier bytes)
  | data {range : List Char} {bytes : ByteRange} :
      ByteRange.Spelling range bytes → bytes.last - bytes.first + 1 ≤ 8 →
      Spelling ('d' :: ':' :: range) (.data bytes)
  | power {range : List Char} {bytes : ByteRange} :
      ByteRange.Spelling range bytes → bytes.littleEndian = false →
      bytes.last - bytes.first + 1 ≤ 4 →
      Spelling ('p' :: ':' :: range) (.power ⟨bytes, none⟩)
  | pinned {range value : List Char} {bytes : ByteRange} {power : Int32} :
      ByteRange.Spelling range bytes → bytes.littleEndian = false →
      bytes.last - bytes.first + 1 ≤ 4 → Decimal.SpellsSigned value power.toInt →
      Spelling ('p' :: ':' :: range ++ ':' :: value) (.power ⟨bytes, some power⟩)

end Field

/-! ## Plain characters -/

namespace Text

/-- Letters, digits and signs: what a token holds besides its separators. -/
def isPlain (char : Char) : Bool :=
  char.isAlphanum || char == '-' || char == '+'

theorem isPlain_of_isAlphanum {char : Char} (alphanum : char.isAlphanum = true) :
    isPlain char = true := by
  simp [isPlain, alphanum]

theorem isPlain_of_isDigit {char : Char} (digit : char.isDigit = true) : isPlain char = true :=
  isPlain_of_isAlphanum (by simp [Char.isAlphanum, digit])

theorem ascii_of_isPlain {char : Char} (plain : isPlain char = true) : char.toNat < 128 := by
  delta isPlain Char.isAlphanum Char.isAlpha Char.isUpper Char.isLower Char.isDigit at plain
  simp only [Bool.or_eq_true, Bool.and_eq_true, decide_eq_true_eq, beq_iff_eq, ge_iff_le,
    UInt32.le_iff_toNat_le] at plain
  have bounds : ∀ {last : Char}, char.val.toNat ≤ last.val.toNat → last.toNat < 128 →
      char.toNat < 128 := fun below ascii => Nat.lt_of_le_of_lt below ascii
  rcases plain with (((⟨_, upper⟩ | ⟨_, lower⟩) | ⟨_, digit⟩) | rfl) | rfl
  · exact bounds upper (by decide)
  · exact bounds lower (by decide)
  · exact bounds digit (by decide)
  · decide
  · decide

/-- Blanks are not plain. -/
theorem isBlank_of_isPlain {char : Char} (plain : isPlain char = true) : isBlank char = false := by
  have table : ∀ code : Fin 128, isPlain (Char.ofNat code) = true →
      isBlank (Char.ofNat code) = false := by
    decide
  have ascii := ascii_of_isPlain plain
  rw [← Char.ofNat_toNat char] at plain ⊢
  exact table ⟨char.toNat, ascii⟩ plain

/-- A text of plain characters holds no other character. -/
theorem not_mem_of_plain {text : List Char} (plain : ∀ char ∈ text, isPlain char = true)
    {separator : Char} (other : isPlain separator = false) : separator ∉ text := by
  intro member
  rw [plain separator member] at other
  exact Bool.noConfusion other

end Text

theorem Text.Decimal.Spells.plain {text : List Char} {number : Nat}
    (spelled : Decimal.Spells text number) : ∀ char ∈ text, isPlain char = true :=
  fun char member => isPlain_of_isDigit (spelled.digits char member)

theorem Text.Decimal.SpellsSigned.plain {text : List Char} {number : Int}
    (spelled : Decimal.SpellsSigned text number) : ∀ char ∈ text, isPlain char = true := by
  cases spelled with
  | unsigned digits => exact digits.plain
  | plus digits | minus digits => exact List.forall_mem_cons.2 ⟨rfl, digits.plain⟩

/-- Two numerals around a hyphen are plain. -/
theorem Text.Decimal.Spells.plain_pair {left right : List Char} {first last : Nat}
    (start : Decimal.Spells left first) (stop : Decimal.Spells right last) :
    ∀ char ∈ left ++ '-' :: right, isPlain char = true := by
  intro char member
  rcases List.mem_append.1 member with member | member
  · exact start.plain char member
  · rcases List.mem_cons.1 member with rfl | member
    · rfl
    · exact stop.plain char member

theorem ByteRange.Spelling.plain {text : List Char} {range : ByteRange}
    (spelled : ByteRange.Spelling text range) : ∀ char ∈ text, isPlain char = true := by
  cases spelled with
  | bigEndian start stop => exact start.plain_pair stop
  | littleEndian start stop =>
      intro char member
      rcases List.mem_append.1 member with member | member
      · exact start.plain_pair stop char member
      · rw [List.mem_singleton.1 member]
        rfl

theorem Text.Hex.isPlain_of_digit? {char : Char} (digit : (Hex.digit? char).isSome = true) :
    isPlain char = true :=
  isPlain_of_isAlphanum (Hex.isAlphanum_of_digit? digit)

theorem Text.Hex.plain_of_encode {text : List Char} {bytes : List UInt8}
    (lower : text.map Char.toLower = Hex.encode bytes) : ∀ char ∈ text, isPlain char = true :=
  fun _ member => Hex.isPlain_of_digit? (Hex.digit?_isSome_of_encode lower member)

theorem ServiceUuid.Spelling.plain {text : List Char} {uuid : ServiceUuid}
    (spelled : ServiceUuid.Spelling text uuid) : ∀ char ∈ text, isPlain char = true := by
  cases spelled with
  | assigned lower => exact Hex.plain_of_encode lower
  | @full bytes _ lower sixteen =>
      intro char member
      have text : _ = (⟨bytes, sixteen⟩ : Uuid).text := lower
      rcases Uuid.digit?_isSome_of_text text member with rfl | digit
      · rfl
      · exact Hex.isPlain_of_digit? digit

end BleBeacon
