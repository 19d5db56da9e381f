import BleBeacon.Proofs.Bytes
import BleBeacon.Proofs.Except
import BleBeacon.Proofs.Layout.Grammar

/-!
# Tokens are read by the grammar

Each step of the reader accepts exactly the texts of a rule: the offsets and the suffix of a range,
the cut of a token into letter, range, value and extra, and the values of the five kinds of field.
Together a token is read as a field exactly if it is a spelling of that field.
-/

namespace BleBeacon

open Text

namespace ByteRange

theorem offset?_eq_some_iff {text : List Char} {offset : Nat} :
    offset? text = some offset ↔ Decimal.Spells text offset ∧ offset ≤ Layout.maxOffset := by
  rw [← Decimal.nat?_eq_some_iff, offset?]
  cases Decimal.nat? text with
  | none => simp
  | some number =>
      simp only [Option.ite_none_right_eq_some, Option.some.injEq]
      exact ⟨fun ⟨bound, equal⟩ => ⟨equal, equal ▸ bound⟩,
        fun ⟨equal, bound⟩ => ⟨equal ▸ bound, equal⟩⟩

@[simp] theorem endianness_append_suffix (offsets : List Char) :
    endianness (offsets ++ ['l']) = (offsets, true) := by
  simp [endianness]

theorem endianness_of_no_suffix {text : List Char} (bare : text.getLast? ≠ some 'l') :
    endianness text = (text, false) :=
  if_neg bare

theorem eq_append_of_endianness {text offsets : List Char} {little : Bool}
    (parts : endianness text = (offsets, little)) :
    text = offsets ++ (if little then ['l'] else []) := by
  unfold endianness at parts
  split at parts
  · rename_i suffix
    obtain ⟨rfl, rfl⟩ := Prod.mk.inj parts
    obtain ⟨front, rfl⟩ := List.getLast?_eq_some_iff.1 suffix
    simp
  · obtain ⟨rfl, rfl⟩ := Prod.mk.inj parts
    simp

/-- Two numerals around a hyphen do not end in the suffix. -/
theorem getLast?_pair_ne_suffix {left right : List Char} {first last : Nat}
    (start : Decimal.Spells left first) (stop : Decimal.Spells right last) :
    (left ++ '-' :: right).getLast? ≠ some 'l' := by
  intro suffix
  rcases List.mem_append.1 (List.mem_of_getLast? suffix) with member | member
  · exact absurd (start.digits 'l' member) (by decide)
  · rcases List.mem_cons.1 member with equal | member
    · exact absurd equal (by decide)
    · exact absurd (stop.digits 'l' member) (by decide)

theorem parse_of_pair {text left right : List Char} {first last : Nat} {little : Bool}
    (parts : endianness text = (left ++ '-' :: right, little))
    (start : Decimal.Spells left first) (stop : Decimal.Spells right last)
    (ordered : first ≤ last) (inside : last ≤ Layout.maxOffset) :
    parse text = .ok ⟨first, last, little⟩ := by
  have hyphen : '-' ∉ left := fun member => absurd (start.digits '-' member) (by decide)
  rw [parse, parts]
  simp only [cut_eq_some_iff.2 ⟨rfl, hyphen⟩,
    offset?_eq_some_iff.2 ⟨start, Nat.le_trans ordered inside⟩,
    offset?_eq_some_iff.2 ⟨stop, inside⟩, if_neg (Nat.not_lt.2 ordered)]

/-- A range is read from exactly its spellings. -/
theorem parse_eq_ok_iff {text : List Char} {range : ByteRange} :
    parse text = .ok range ↔ Spelling text range := by
  constructor
  · intro parsed
    obtain ⟨offsets, little, parts⟩ : ∃ offsets little, endianness text = (offsets, little) :=
      ⟨_, _, rfl⟩
    have whole := eq_append_of_endianness parts
    rw [parse, parts] at parsed
    cases cutting : cut '-' offsets with
    | none => simp [cutting] at parsed
    | some pair =>
        obtain ⟨left, right⟩ := pair
        obtain ⟨rfl, _⟩ := cut_eq_some_iff.1 cutting
        simp only [cutting] at parsed
        split at parsed
        · rename_i first last start stop
          obtain ⟨start, _⟩ := offset?_eq_some_iff.1 start
          obtain ⟨stop, inside⟩ := offset?_eq_some_iff.1 stop
          split at parsed
          · simp at parsed
          · rename_i ordered
            cases parsed
            subst whole
            cases little with
            | true => exact .littleEndian start stop (Nat.not_lt.1 ordered) inside
            | false =>
                rw [if_neg (by decide), List.append_nil]
                exact .bigEndian start stop (Nat.not_lt.1 ordered) inside
        · simp at parsed
  · intro spelled
    cases spelled with
    | bigEndian start stop ordered inside =>
        exact parse_of_pair (endianness_of_no_suffix (getLast?_pair_ne_suffix start stop))
          start stop ordered inside
    | littleEndian start stop ordered inside =>
        exact parse_of_pair (endianness_append_suffix _) start stop ordered inside

example : parse "007-9l".toList = .ok ⟨7, 9, true⟩ := by decide

end ByteRange

namespace Token

/-- The text that is taken apart into a range, a value and an extra. -/
def assemble (range : List Char) (value extra : Option (List Char)) : List Char :=
  range ++ value.elim [] ('=' :: ·) ++ extra.elim [] (':' :: ·)

theorem assemble_split {body range : List Char} {value extra : Option (List Char)}
    (parts : split body = (range, value, extra)) : body = assemble range value extra := by
  unfold split at parts
  split at parts
  · rename_i before after cutting
    obtain ⟨rfl, _⟩ := cut_eq_some_iff.1 cutting
    split at parts
    · rename_i inner outer cutting
      obtain ⟨rfl, _⟩ := cut_eq_some_iff.1 cutting
      cases parts
      simp [assemble]
    · cases parts
      simp [assemble]
  · split at parts
    · rename_i before after cutting
      obtain ⟨rfl, _⟩ := cut_eq_some_iff.1 cutting
      cases parts
      simp [assemble]
    · cases parts
      simp [assemble]

/-- Parts of plain characters are taken apart again. -/
theorem split_assemble {range : List Char} {value extra : Option (List Char)}
    (rangePlain : ∀ char ∈ range, isPlain char = true)
    (valuePlain : ∀ text ∈ value, ∀ char ∈ text, isPlain char = true)
    (extraPlain : ∀ text ∈ extra, ∀ char ∈ text, isPlain char = true) :
    split (assemble range value extra) = (range, value, extra) := by
  have rangeEquals : '=' ∉ range := not_mem_of_plain rangePlain (by decide)
  have rangeColon : ':' ∉ range := not_mem_of_plain rangePlain (by decide)
  cases value with
  | some value =>
      have valueColon : ':' ∉ value := not_mem_of_plain (valuePlain value rfl) (by decide)
      cases extra with
      | some extra =>
          have atEquals : cut '=' (assemble range (some value) (some extra)) =
              some (range, value ++ ':' :: extra) :=
            cut_eq_some_iff.2 ⟨by simp [assemble], rangeEquals⟩
          have atColon : cut ':' (value ++ ':' :: extra) = some (value, extra) :=
            cut_eq_some_iff.2 ⟨rfl, valueColon⟩
          simp only [split, atEquals, atColon]
      | none =>
          have atEquals : cut '=' (assemble range (some value) none) = some (range, value) :=
            cut_eq_some_iff.2 ⟨by simp [assemble], rangeEquals⟩
          simp only [split, atEquals, cut_eq_none_iff.2 valueColon]
  | none =>
      cases extra with
      | some extra =>
          have extraEquals : '=' ∉ extra := not_mem_of_plain (extraPlain extra rfl) (by decide)
          have atEquals : cut '=' (assemble range none (some extra)) = none :=
            cut_eq_none_iff.2 (by simp [assemble, rangeEquals, extraEquals])
          have atColon : cut ':' (assemble range none (some extra)) = some (range, extra) :=
            cut_eq_some_iff.2 ⟨by simp [assemble], rangeColon⟩
          simp only [split, atEquals, atColon]
      | none =>
          have whole : assemble range none none = range := by simp [assemble]
          simp only [split, whole, cut_eq_none_iff.2 rangeEquals, cut_eq_none_iff.2 rangeColon]

/-- What a token is made of: the letter of its kind, a range, and perhaps a value and an extra. -/
theorem parse_sound {text : List Char} {token : Token} (parsed : parse text = .ok token) :
    ∃ range, ByteRange.Spelling range token.range ∧
      text = token.kind.letter :: ':' :: assemble range token.value token.extra := by
  unfold parse at parsed
  split at parsed
  · simp at parsed
  · rename_i letter body cutting
    obtain ⟨rfl, _⟩ := cut_eq_some_iff.1 cutting
    obtain ⟨range, value, extra, parts⟩ :
        ∃ range value extra, split body = (range, value, extra) := ⟨_, _, _, rfl⟩
    rw [parts] at parsed
    simp only at parsed
    split at parsed
    · simp at parsed
    · simp at parsed
    · rename_i bytes kind spelled lettered
      cases parsed
      have letters : letter = [kind.letter] := by
        have found := List.find?_some lettered
        simpa using found
      refine ⟨range, ByteRange.parse_eq_ok_iff.1 spelled, ?_⟩
      rw [letters, assemble_split parts]
      rfl

theorem parse_assemble (kind : FieldKind) {range : List Char} {bytes : ByteRange}
    (value extra : Option (List Char)) (spelled : ByteRange.Spelling range bytes)
    (valuePlain : ∀ text ∈ value, ∀ char ∈ text, isPlain char = true)
    (extraPlain : ∀ text ∈ extra, ∀ char ∈ text, isPlain char = true) :
    parse (kind.letter :: ':' :: assemble range value extra) = .ok ⟨kind, bytes, value, extra⟩ := by
  have atColon : cut ':' (kind.letter :: ':' :: assemble range value extra) =
      some ([kind.letter], assemble range value extra) := by
    apply cut_eq_some_iff.2
    exact ⟨rfl, by cases kind <;> decide⟩
  simp only [parse, atColon, split_assemble spelled.plain valuePlain extraPlain,
    ByteRange.parse_eq_ok_iff.2 spelled, FieldKind.ofText?_letter]

/-! ## Values -/

theorem isDigits_of_encode {value : List Char} {bytes : List UInt8}
    (lower : value.map Char.toLower = Hex.encode bytes) (nonempty : 0 < bytes.length) :
    Hex.isDigits value = true := by
  have length := congrArg List.length lower
  rw [List.length_map, Hex.length_encode] at length
  simp only [Hex.isDigits, Bool.and_eq_true, Bool.not_eq_true', List.isEmpty_eq_false_iff,
    List.all_eq_true]
  exact ⟨List.ne_nil_of_length_pos (by omega),
    fun _ member => Hex.digit?_isSome_of_encode lower member⟩

theorem length_eq_iff_of_encode {value : List Char} {bytes : List UInt8}
    (lower : value.map Char.toLower = Hex.encode bytes) (width : Nat) :
    value.length = 2 * width ↔ bytes.length = width := by
  have length := congrArg List.length lower
  rw [List.length_map, Hex.length_encode] at length
  omega

theorem matcher_eq_ok_iff {token : Token} {matcher : Matcher} :
    token.matcher = .ok matcher ↔
      matcher.range = token.range ∧ token.range.littleEndian = false ∧
      token.range.width ≤ Layout.maxMatcherWidth ∧ token.extra = none ∧
      ∃ value bytes, token.value = some value ∧ value.map Char.toLower = Hex.encode bytes ∧
        bytes.length = token.range.width ∧ matcher.expected.toNat = Bytes.value bytes := by
  constructor
  · intro read
    cases given : token.value with
    | none => simp [Token.matcher, check_eq_ok_iff, given] at read
    | some value =>
        simp only [Token.matcher, check_eq_ok_iff, given] at read
        obtain ⟨bigEndian, noExtra, digits, length, narrow, read⟩ := read
        cases decoded : Hex.decode? value with
        | none => simp [decoded] at read
        | some bytes =>
            simp only [decoded] at read
            cases read
            have lower := Hex.decode?_eq_some_iff.1 decoded
            have width := (length_eq_iff_of_encode lower _).1 (Decidable.not_not.1 length)
            have short := Nat.not_lt.1 narrow
            exact ⟨rfl, by simpa using bigEndian, short, by simpa using noExtra, value, bytes,
              rfl, lower, width, Bytes.toNat_word (width ▸ short)⟩
  · obtain ⟨range, total⟩ := matcher
    rintro ⟨rfl, bigEndian, narrow, noExtra, value, bytes, given, lower, width, expected⟩
    have positive : 0 < bytes.length := by rw [width]; exact Nat.succ_pos _
    have word : Bytes.word bytes = total :=
      UInt64.toNat_inj.1 (by rw [Bytes.toNat_word (width ▸ narrow), expected])
    simp only [Token.matcher, check_eq_ok_iff, bigEndian, noExtra, given,
      isDigits_of_encode lower positive, Hex.decode?_eq_some_iff.2 lower,
      (length_eq_iff_of_encode lower _).2 width, word]
    simpa using narrow

theorem assigned?_eq_some_iff {value : List Char} {number : UInt16} :
    assigned? value = some number ↔ ∃ bytes, value.map Char.toLower = Hex.encode bytes ∧
      bytes.length = 2 ∧ (ServiceUuid.assigned number).onAir = bytes.reverse := by
  have reduced : ∀ {bytes : List UInt8}, bytes.length = 2 →
      ((Bytes.word bytes).toUInt16 = number ↔
        (ServiceUuid.assigned number).onAir = bytes.reverse) := by
    intro bytes two
    have small := Bytes.value_lt bytes
    have word : (Bytes.word bytes).toUInt16.toUInt64 = Bytes.word bytes := by
      apply UInt64.toNat_inj.1
      rw [UInt16.toNat_toUInt64, UInt64.toNat_toUInt16, Bytes.toNat_word (by omega)]
      exact Nat.mod_eq_of_lt (by rwa [two] at small)
    rw [ServiceUuid.onAir, List.reverse_inj]
    constructor
    · rintro rfl
      rw [word, ← two]
      exact Bytes.ofWord_word (by omega)
    · rintro rfl
      rw [Bytes.word_ofWord (by decide) number.toNat_lt]
      exact UInt16.toUInt16_toUInt64 number
  simp only [assigned?, Option.ite_none_right_eq_some, Option.map_eq_some_iff,
    Hex.decode?_eq_some_iff]
  constructor
  · rintro ⟨four, bytes, lower, word⟩
    have two := (length_eq_iff_of_encode lower 2).1 four
    exact ⟨bytes, lower, two, (reduced two).1 word⟩
  · rintro ⟨bytes, lower, two, air⟩
    exact ⟨(length_eq_iff_of_encode lower 2).2 two, bytes, lower, (reduced two).2 air⟩

theorem serviceUuid_eq_ok_iff {value : List Char} {uuid : ServiceUuid} :
    serviceUuid value = .ok uuid ↔ ServiceUuid.Spelling value uuid := by
  constructor
  · intro read
    unfold serviceUuid at read
    split at read
    · rename_i number short
      cases read
      obtain ⟨bytes, lower, two, air⟩ := assigned?_eq_some_iff.1 short
      exact .assigned lower two air
    · split at read
      · split at read
        · rename_i uuid full
          cases read
          exact .full (Uuid.read?_eq_some_iff.1 full) uuid.length_octets rfl
        · simp at read
      · split at read <;> simp at read
  · intro spelled
    cases spelled with
    | assigned lower two air =>
        rw [serviceUuid, assigned?_eq_some_iff.2 ⟨_, lower, two, air⟩]
    | @full bytes uuid lower sixteen air =>
        have octets : uuid.octets = bytes := List.reverse_inj.1 air
        have text : value.map Char.toLower = uuid.text := by rw [lower, ← octets]; rfl
        have length := congrArg List.length text
        rw [List.length_map, Uuid.length_text] at length
        have long : assigned? value = none := if_neg (by omega)
        simp only [serviceUuid, long, length, Uuid.read?_eq_some_iff.2 text, if_true]

theorem service_eq_ok_iff {token : Token} {service : ServiceField} :
    token.service = .ok service ↔
      service.range = token.range ∧ token.range.littleEndian = false ∧
      token.range.width = service.uuid.width ∧ token.extra = none ∧
      ∃ value, token.value = some value ∧ ServiceUuid.Spelling value service.uuid := by
  constructor
  · intro read
    cases given : token.value with
    | none => simp [Token.service, check_eq_ok_iff, given] at read
    | some value =>
        simp only [Token.service, check_eq_ok_iff, given] at read
        obtain ⟨bigEndian, noExtra, read⟩ := read
        cases spelled : serviceUuid value with
        | error fault => simp [spelled] at read
        | ok uuid =>
            simp only [spelled, check_eq_ok_iff] at read
            obtain ⟨width, read⟩ := read
            cases read
            exact ⟨rfl, by simpa using bigEndian, Decidable.not_not.1 width,
              by simpa using noExtra, value, rfl, serviceUuid_eq_ok_iff.1 spelled⟩
  · obtain ⟨uuid, range⟩ := service
    rintro ⟨rfl, bigEndian, width, noExtra, value, given, spelled⟩
    simp only [Token.service, check_eq_ok_iff, bigEndian, noExtra, given,
      serviceUuid_eq_ok_iff.2 spelled]
    simpa using width

theorem bareRange_eq_ok_iff {token : Token} {limit : Nat} {range : ByteRange} :
    token.bareRange limit = .ok range ↔
      range = token.range ∧ token.range.width ≤ limit ∧
      token.value = none ∧ token.extra = none := by
  simp only [Token.bareRange, check_eq_ok_iff, Except.ok.injEq, not_or, Bool.not_eq_true,
    Option.isSome_eq_false_iff, Option.isNone_iff_eq_none, Nat.not_lt]
  constructor
  · rintro ⟨⟨noValue, noExtra⟩, narrow, rfl⟩
    exact ⟨rfl, narrow, noValue, noExtra⟩
  · rintro ⟨rfl, narrow, noValue, noExtra⟩
    exact ⟨⟨noValue, noExtra⟩, narrow, rfl⟩

/-- The extra of a power field is missing or spells the pinned power. -/
theorem power_eq_ok_iff {token : Token} {power : PowerField} :
    token.power = .ok power ↔
      power.range = token.range ∧ token.range.littleEndian = false ∧
      token.range.width ≤ Layout.maxPowerWidth ∧ token.value = none ∧
      (token.extra = none ∧ power.pinned = none ∨ ∃ extra pinned, token.extra = some extra ∧
        power.pinned = some pinned ∧ Decimal.SpellsSigned extra pinned.toInt) := by
  obtain ⟨range, pinned⟩ := power
  simp only [Token.power, check_eq_ok_iff, Bool.not_eq_true, Option.isSome_eq_false_iff,
    Option.isNone_iff_eq_none, Nat.not_lt]
  cases given : token.extra with
  | none =>
      constructor
      · rintro ⟨bigEndian, noValue, narrow, read⟩
        cases read
        exact ⟨rfl, bigEndian, narrow, noValue, .inl ⟨rfl, rfl⟩⟩
      · rintro ⟨rfl, bigEndian, narrow, noValue, ⟨_, rfl⟩ | ⟨extra, _, impossible, _⟩⟩
        · exact ⟨bigEndian, noValue, narrow, rfl⟩
        · simp at impossible
  | some extra =>
      constructor
      · rintro ⟨bigEndian, noValue, narrow, read⟩
        cases number : Decimal.int32? extra with
        | none => simp [number] at read
        | some power =>
            simp only [number] at read
            cases read
            exact ⟨rfl, bigEndian, narrow, noValue,
              .inr ⟨extra, power, rfl, rfl, Decimal.int32?_eq_some_iff.1 number⟩⟩
      · rintro ⟨rfl, bigEndian, narrow, noValue, ⟨impossible, _⟩ | ⟨_, power, same, rfl, spelled⟩⟩
        · simp at impossible
        · cases same
          refine ⟨bigEndian, noValue, narrow, ?_⟩
          simp only [Decimal.int32?_eq_some_iff.2 spelled]

/-! ## Fields -/

theorem kind_of_field {token : Token} {field : Field} (read : token.field = .ok field) :
    field.kind = token.kind := by
  unfold Token.field at read
  split at read <;>
    obtain ⟨_, _, rfl⟩ := map_eq_ok_iff.1 read <;>
    simp only [Field.kind, *]

/-- The field of a token that is taken apart is spelled by the token. -/
theorem spelling_of_field {token : Token} {field : Field} {range : List Char}
    (spelled : ByteRange.Spelling range token.range) (read : token.field = .ok field) :
    Field.Spelling (token.kind.letter :: ':' :: assemble range token.value token.extra) field := by
  cases kind : token.kind with
  | matcher =>
      simp only [Token.field, kind] at read
      obtain ⟨matcher, accepted, rfl⟩ := map_eq_ok_iff.1 read
      obtain ⟨same, bigEndian, narrow, noExtra, value, bytes, given, lower, width, expected⟩ :=
        matcher_eq_ok_iff.1 accepted
      rw [← same] at spelled bigEndian narrow width
      have rule := Field.Spelling.matcher spelled bigEndian narrow lower width expected
      simpa [assemble, given, noExtra, FieldKind.letter] using rule
  | service =>
      simp only [Token.field, kind] at read
      obtain ⟨service, accepted, rfl⟩ := map_eq_ok_iff.1 read
      obtain ⟨same, bigEndian, width, noExtra, value, given, uuid⟩ := service_eq_ok_iff.1 accepted
      rw [← same, ← ServiceUuid.length_onAir] at width
      rw [← same] at spelled bigEndian
      have rule := Field.Spelling.service spelled bigEndian width uuid
      simpa [assemble, given, noExtra, FieldKind.letter] using rule
  | identifier =>
      simp only [Token.field, kind] at read
      obtain ⟨bytes, accepted, rfl⟩ := map_eq_ok_iff.1 read
      obtain ⟨rfl, narrow, noValue, noExtra⟩ := bareRange_eq_ok_iff.1 accepted
      have rule := Field.Spelling.identifier spelled narrow
      simpa [assemble, noValue, noExtra, FieldKind.letter] using rule
  | data =>
      simp only [Token.field, kind] at read
      obtain ⟨bytes, accepted, rfl⟩ := map_eq_ok_iff.1 read
      obtain ⟨rfl, narrow, noValue, noExtra⟩ := bareRange_eq_ok_iff.1 accepted
      have rule := Field.Spelling.data spelled narrow
      simpa [assemble, noValue, noExtra, FieldKind.letter] using rule
  | power =>
      simp only [Token.field, kind] at read
      obtain ⟨⟨bytes, pinned⟩, accepted, rfl⟩ := map_eq_ok_iff.1 read
      obtain ⟨rfl, bigEndian, narrow, noValue, extras⟩ := power_eq_ok_iff.1 accepted
      rcases extras with ⟨noExtra, none⟩ | ⟨extra, power, given, some, number⟩
      · cases none
        have rule := Field.Spelling.power spelled bigEndian narrow
        simpa [assemble, noValue, noExtra, FieldKind.letter] using rule
      · cases some
        have rule := Field.Spelling.pinned spelled bigEndian narrow number
        simpa [assemble, noValue, given, FieldKind.letter] using rule

/-- A spelling of a field is taken apart into a token whose field it is. -/
theorem field_of_spelling {text : List Char} {field : Field} (spelled : Field.Spelling text field) :
    ∃ token, Token.parse text = .ok token ∧ token.field = .ok field := by
  cases spelled with
  | @matcher range value matcher bytes spelled bigEndian narrow lower width expected =>
      have plain := Hex.plain_of_encode lower
      have parsed := parse_assemble .matcher (some value) none
        spelled (by simpa using plain) (by simp)
      refine ⟨_, by simpa [assemble, FieldKind.letter] using parsed, ?_⟩
      exact map_eq_ok_iff.2 ⟨matcher, matcher_eq_ok_iff.2
        ⟨rfl, bigEndian, narrow, rfl, value, bytes, rfl, lower, width, expected⟩, rfl⟩
  | @service range value service spelled bigEndian width uuid =>
      have parsed := parse_assemble .service (some value) none
        spelled (by simpa using uuid.plain) (by simp)
      refine ⟨_, by simpa [assemble, FieldKind.letter] using parsed, ?_⟩
      exact map_eq_ok_iff.2 ⟨service, service_eq_ok_iff.2
        ⟨rfl, bigEndian, width.trans service.uuid.length_onAir, rfl, value, rfl, uuid⟩, rfl⟩
  | identifier spelled narrow =>
      have parsed := parse_assemble .identifier none none spelled (by simp) (by simp)
      refine ⟨_, by simpa [assemble, FieldKind.letter] using parsed, ?_⟩
      exact map_eq_ok_iff.2 ⟨_, bareRange_eq_ok_iff.2 ⟨rfl, narrow, rfl, rfl⟩, rfl⟩
  | data spelled narrow =>
      have parsed := parse_assemble .data none none spelled (by simp) (by simp)
      refine ⟨_, by simpa [assemble, FieldKind.letter] using parsed, ?_⟩
      exact map_eq_ok_iff.2 ⟨_, bareRange_eq_ok_iff.2 ⟨rfl, narrow, rfl, rfl⟩, rfl⟩
  | power spelled bigEndian narrow =>
      have parsed := parse_assemble .power none none spelled (by simp) (by simp)
      refine ⟨_, by simpa [assemble, FieldKind.letter] using parsed, ?_⟩
      exact map_eq_ok_iff.2 ⟨_, power_eq_ok_iff.2
        ⟨rfl, bigEndian, narrow, rfl, .inl ⟨rfl, rfl⟩⟩, rfl⟩
  | @pinned range value bytes power spelled bigEndian narrow number =>
      have parsed := parse_assemble .power none (some value)
        spelled (by simp) (by simpa using number.plain)
      refine ⟨_, by simpa [assemble, FieldKind.letter] using parsed, ?_⟩
      exact map_eq_ok_iff.2 ⟨_, power_eq_ok_iff.2
        ⟨rfl, bigEndian, narrow, rfl, .inr ⟨value, power, rfl, rfl, number⟩⟩, rfl⟩

/-- A token is read as a field exactly if it is a spelling of that field. -/
theorem read_iff_spelling {text : List Char} {field : Field} :
    (∃ token, Token.parse text = .ok token ∧ token.field = .ok field) ↔
      Field.Spelling text field := by
  constructor
  · rintro ⟨token, parsed, read⟩
    obtain ⟨range, spelled, rfl⟩ := parse_sound parsed
    exact spelling_of_field spelled read
  · exact field_of_spelling

end Token

end BleBeacon
