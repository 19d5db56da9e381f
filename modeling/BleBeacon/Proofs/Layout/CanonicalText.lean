import BleBeacon.Proofs.Layout.Bounds

/-!
# Canonical texts

The canonical text of a layout is the list of the canonical texts of its fields. Each of these is a
spelling of its field, within the bounds that a spelling states, and none has a comma or a blank in
it. So the compiler finds the fields again, exactly for the layouts within bounds.
-/

namespace BleBeacon

open Text

/-! ## Texts of fields -/

theorem ByteRange.spelling_text {range : ByteRange} {limit : Nat} (bounds : range.Within limit) :
    ByteRange.Spelling range.text range := by
  obtain ⟨first, last, littleEndian⟩ := range
  have start := Decimal.spells_ofNat first
  have stop := Decimal.spells_ofNat last
  cases littleEndian with
  | true => exact .littleEndian start stop bounds.ordered bounds.last_le
  | false =>
      rw [ByteRange.text, if_neg Bool.false_ne_true, List.append_nil]
      exact .bigEndian start stop bounds.ordered bounds.last_le

theorem Uuid.map_toLower_text (uuid : Uuid) : uuid.text.map Char.toLower = uuid.text := by
  have encoded : ∀ bytes, (Hex.encode bytes).map Char.toLower = Hex.encode bytes :=
    fun bytes => Hex.decode?_eq_some_iff.1 (Hex.decode?_encode bytes)
  have hyphen : Char.toLower '-' = '-' := rfl
  simp [Uuid.text, Uuid.groupSizes, Uuid.pieces, List.intercalate, List.intersperse, encoded,
    hyphen]

/-- The canonical text of a field within bounds is a spelling of it. -/
theorem Field.spelling_text {field : Field} (bounds : field.WellFormed) :
    Field.Spelling field.text field := by
  cases field with
  | matcher part =>
      obtain ⟨range, bigEndian, fits⟩ := bounds
      have value : part.expected.toNat = Bytes.value part.bytes := by
        rw [Matcher.bytes, Bytes.value_ofWord, Nat.mod_eq_of_lt fits]
      have lower := Hex.decode?_eq_some_iff.1 (Hex.decode?_encode part.bytes)
      exact .matcher (ByteRange.spelling_text range) bigEndian range.width_le lower
        part.length_bytes value
  | service part =>
      obtain ⟨uuid, bytes⟩ := part
      obtain ⟨range, bigEndian, width⟩ := bounds
      rw [← ServiceUuid.length_onAir] at width
      have spelled := ByteRange.spelling_text range
      cases uuid with
      | assigned number =>
          have lower := Hex.decode?_eq_some_iff.1
            (Hex.decode?_encode (Bytes.ofWord 2 number.toUInt64))
          exact .service spelled bigEndian width
            (.assigned lower (Bytes.length_ofWord 2 _) rfl)
      | full uuid =>
          exact .service spelled bigEndian width
            (.full uuid.map_toLower_text uuid.length_octets rfl)
  | identifier part =>
      rw [Field.text, Field.valueText, List.append_nil]
      exact .identifier (ByteRange.spelling_text bounds) bounds.width_le
  | data part =>
      rw [Field.text, Field.valueText, List.append_nil]
      exact .data (ByteRange.spelling_text bounds) bounds.width_le
  | power part =>
      obtain ⟨bytes, pinned⟩ := part
      obtain ⟨range, bigEndian⟩ := bounds
      have spelled := ByteRange.spelling_text range
      cases pinned with
      | none =>
          rw [Field.text, Field.valueText, List.append_nil]
          exact .power spelled bigEndian range.width_le
      | some power =>
          exact .pinned spelled bigEndian range.width_le (Decimal.spellsSigned_ofInt power.toInt)

/-! ## Tokens of a list of tokens -/

/-- The characters of tokens: plain ones, colons and equals signs. -/
def Text.isSolid (char : Char) : Bool :=
  isPlain char || char == ':' || char == '='

theorem Text.isSolid_of_plain {text : List Char} (plain : ∀ char ∈ text, isPlain char = true) :
    ∀ char ∈ text, isSolid char = true := by
  intro char member
  simp [isSolid, plain char member]

theorem Text.isBlank_of_isSolid {char : Char} (solid : isSolid char = true) :
    isBlank char = false := by
  simp only [isSolid, Bool.or_eq_true, beq_iff_eq] at solid
  rcases solid with (plain | rfl) | rfl
  · exact isBlank_of_isPlain plain
  · decide
  · decide

theorem Field.Spelling.solid {text : List Char} {field : Field}
    (spelled : Field.Spelling text field) : ∀ char ∈ text, isSolid char = true := by
  cases spelled with
  | matcher range _ _ lower =>
      simp only [List.forall_mem_append, List.forall_mem_cons]
      exact ⟨⟨rfl, rfl, isSolid_of_plain range.plain⟩, rfl,
        isSolid_of_plain (Hex.plain_of_encode lower)⟩
  | service range _ _ uuid =>
      simp only [List.forall_mem_append, List.forall_mem_cons]
      exact ⟨⟨rfl, rfl, isSolid_of_plain range.plain⟩, rfl, isSolid_of_plain uuid.plain⟩
  | identifier range | data range | power range =>
      simp only [List.forall_mem_cons]
      exact ⟨rfl, rfl, isSolid_of_plain range.plain⟩
  | pinned range _ _ number =>
      simp only [List.forall_mem_append, List.forall_mem_cons]
      exact ⟨⟨rfl, rfl, isSolid_of_plain range.plain⟩, rfl, isSolid_of_plain number.plain⟩

namespace Layout

/-- A text that can be a token: with characters, none of which is a comma or a blank at an end. -/
structure IsToken (text : List Char) : Prop where
  nonempty : text ≠ []
  trimmed : trim text = text
  comma : ',' ∉ text

theorem isToken_of_solid {text : List Char} (nonempty : text ≠ [])
    (solid : ∀ char ∈ text, isSolid char = true) : IsToken text where
  nonempty := nonempty
  trimmed := trim_eq_self fun char inside => isBlank_of_isSolid (solid char inside)
  comma := fun inside => absurd (solid ',' inside) (by decide)

/-- Tokens joined by commas are taken apart again. -/
theorem tokens_intercalate {texts : List (List Char)} (some : texts ≠ [])
    (each : ∀ text ∈ texts, IsToken text) : tokens ([','].intercalate texts) = texts := by
  have trimmed : texts.map trim = texts.map id :=
    List.map_congr_left fun text member => (each text member).trimmed
  rw [List.map_id] at trimmed
  have comma : ∀ text ∈ texts, ',' ∉ text := fun text member => (each text member).comma
  rw [tokens, List.splitOn_intercalate ',' comma some, trimmed, List.filter_eq_self]
  intro text member
  simpa using (each text member).nonempty

/-- The tokens of the canonical text are the texts of the fields. -/
theorem tokens_text {layout : Layout} (bounds : layout.WellFormed) :
    tokens layout.text = layout.fields.map Field.text := by
  obtain ⟨some, each, _⟩ := wellFormed_iff.1 bounds
  apply tokens_intercalate
  · simpa using some
  · intro text member
    obtain ⟨field, held, rfl⟩ := List.mem_map.1 member
    exact isToken_of_solid (by simp [Field.text]) (Field.spelling_text (each field held)).solid

/-- Writing a layout and compiling the text gives the layout back, exactly if the layout is within
bounds. In particular every compiled layout survives the round trip. -/
theorem parse_text (layout : Layout) :
    (layout.WellFormed ↔ parse layout.text = .ok layout) ∧
      ∀ text, parse text = .ok layout → parse layout.text = .ok layout := by
  have back : layout.WellFormed → parse layout.text = .ok layout := by
    intro bounds
    obtain ⟨some, each, fits⟩ := wellFormed_iff.1 bounds
    rw [parse_eq_ok_iff, tokens_text bounds]
    refine ⟨by simpa using some, fits, layout.fields, ?_, fun kind => (filter_fields _ kind).symm⟩
    rw [List.forall₂_map_left_iff, List.forall₂_same]
    exact fun field held => Field.spelling_text (each field held)
  exact ⟨⟨back, wellFormed_of_parse⟩, fun _ parsed => back (wellFormed_of_parse parsed)⟩

theorem parse_text_full_service :
    parse { service := some ⟨.full .bluetoothBase, ⟨0, 15, false⟩⟩,
            identifiers := [⟨18, 21, true⟩],
            power := some ⟨⟨22, 22, false⟩, some (-41)⟩ : Layout }.text =
      .ok { service := some ⟨.full .bluetoothBase, ⟨0, 15, false⟩⟩,
            identifiers := [⟨18, 21, true⟩],
            power := some ⟨⟨22, 22, false⟩, some (-41)⟩ } := by
  refine (parse_text _).1.1 ?_
  constructor
  case nonempty => decide
  case matcher => simp
  case service => simpa [ServiceUuid.width] using ⟨⟨by decide, by decide, by decide⟩, by decide⟩
  case identifiers => simpa using ⟨by decide, by decide, by decide⟩
  case identifiers_le => decide
  case dataFields => simp
  case dataFields_le => decide
  case power => simpa using ⟨by decide, by decide, by decide⟩

end Layout

end BleBeacon
