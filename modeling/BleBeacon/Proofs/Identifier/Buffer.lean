import BleBeacon.Proofs.Footprint
import BleBeacon.Proofs.Report.Length

/-!
# Identifier texts in a buffer

The text of an identifier is written piece by piece into a buffer for the widest identifier, and a
piece that does not fit is not missed by the writer. No text is cut there, whatever pieces it comes
in, because the widest bytes have the longest text. So what is in the buffer tells identifiers apart,
and byte strings of one length too.
-/

namespace BleBeacon

/-- The buffer with more pieces, up to the first one that does not fit. -/
def LineBuffer.fill (buffer : LineBuffer) : List (List Char) → LineBuffer
  | [] => buffer
  | piece :: pieces =>
      match buffer.append? piece with
      | some extended => extended.fill pieces
      | none => buffer

/-- Pieces that all fit are all there. -/
theorem LineBuffer.fill_of_appendAll? {buffer extended : LineBuffer} {pieces : List (List Char)}
    (appended : buffer.appendAll? pieces = some extended) : buffer.fill pieces = extended := by
  induction pieces generalizing buffer with
  | nil => exact Option.some.inj appended
  | cons piece pieces ih =>
      rw [appendAll?] at appended
      rw [fill]
      cases step : buffer.append? piece with
      | none =>
          rw [step] at appended
          cases appended
      | some middle =>
          rw [step] at appended
          exact ih appended

/-- Only the total length of pieces decides whether they fit an empty buffer. -/
theorem LineBuffer.text_fill_empty {capacity : Nat} {pieces : List (List Char)}
    (fits : Text.byteLength pieces.flatten ≤ capacity) :
    ((empty capacity).fill pieces).text = pieces.flatten := by
  have appended : (empty capacity).appendAll? pieces = some ⟨capacity, pieces.flatten, fits⟩ :=
    appendAll?_eq_some_iff.2 ⟨rfl, rfl⟩
  rw [fill_of_appendAll? appended]

namespace Identifier

/-- The text in the pieces in which it is written: bytes are written one by one. -/
def pieces : Identifier → List (List Char)
  | uuid id => [id.text]
  | number id => [Text.Decimal.ofNat id.toNat]
  | bytes id => ['0', 'x'] :: id.map Text.Hex.pair

/-- What a buffer for the longest text of an identifier takes of the text. -/
def writtenText (identifier : Identifier) : List Char :=
  ((LineBuffer.empty maxTextLength).fill identifier.pieces).text

theorem flatten_pieces (identifier : Identifier) :
    identifier.pieces.flatten = identifier.text := by
  cases identifier with
  | uuid id | number id => exact List.append_nil _
  | bytes id => exact congrArg ('0' :: 'x' :: ·) List.flatMap_def.symm

/-! ## Classified bytes -/

theorem length_le_of_ofBytes? {bytes : List UInt8} {identifier : Identifier}
    (classified : ofBytes? bytes = some identifier) : bytes.length ≤ maxWidth := by
  have widest : 16 ≤ maxWidth := by decide
  unfold ofBytes? at classified
  split at classified
  · omega
  · split at classified
    · omega
    · split at classified
      · assumption
      · cases classified

theorem textLimit_le {width : Nat} (narrow : width ≤ maxWidth) :
    textLimit width ≤ maxTextLength := by
  unfold textLimit
  split
  · decide
  · split
    · decide
    · exact Nat.add_le_add_left (Nat.mul_le_mul_left 2 narrow) 2

theorem byteLength_text_le {bytes : List UInt8} {identifier : Identifier}
    (classified : ofBytes? bytes = some identifier) :
    Text.byteLength identifier.text ≤ maxTextLength := by
  have narrow := length_le_of_ofBytes? classified
  rw [Json.byteLength_of_compact (Json.compact_of_plain identifier.plain_text)]
  exact Nat.le_trans ((ofBytes?_eq_some_iff narrow).1 classified).length_text_le
    (textLimit_le narrow)

theorem text_fill_of_ofBytes? {bytes : List UInt8} {identifier : Identifier}
    (classified : ofBytes? bytes = some identifier) {pieces : List (List Char)}
    (spelled : pieces.flatten = identifier.text) :
    ((LineBuffer.empty maxTextLength).fill pieces).text = identifier.text := by
  rw [LineBuffer.text_fill_empty, spelled]
  rw [spelled]
  exact byteLength_text_le classified

theorem writtenText_of_ofBytes? {bytes : List UInt8} {identifier : Identifier}
    (classified : ofBytes? bytes = some identifier) : identifier.writtenText = identifier.text :=
  text_fill_of_ofBytes? classified identifier.flatten_pieces

/-- At most 32 bytes are always classified, and the text of the identifier is never cut: it has at most
66 bytes, and the buffer takes all of it in any pieces. Identifiers with the same text in the buffer
are the same, whatever bytes they come from, and so are bytes of the same length. -/
theorem written_texts_identify :
    (∀ bytes : List UInt8, bytes.length ≤ 32 → ∃ identifier, ofBytes? bytes = some identifier ∧
      Text.byteLength identifier.text ≤ 66 ∧ identifier.writtenText = identifier.text ∧
      ∀ pieces : List (List Char), pieces.flatten = identifier.text →
        ((LineBuffer.empty 66).fill pieces).text = identifier.text) ∧
    ∀ (left right : List UInt8) (first second : Identifier),
      ofBytes? left = some first → ofBytes? right = some second →
      (first.writtenText = second.writtenText ↔ first = second) ∧
      (left.length = right.length → (first.writtenText = second.writtenText ↔ left = right)) := by
  constructor
  · intro bytes short
    have narrow : bytes.length ≤ maxWidth := short
    obtain ⟨identifier, classifies⟩ := exists_classifies narrow
    have classified := (ofBytes?_eq_some_iff narrow).2 classifies
    exact ⟨identifier, classified, byteLength_text_le classified,
      writtenText_of_ofBytes? classified, fun _ => text_fill_of_ofBytes? classified⟩
  · intro left right first second leftClassified rightClassified
    have same : first.writtenText = second.writtenText ↔ first = second := by
      rw [writtenText_of_ofBytes? leftClassified, writtenText_of_ofBytes? rightClassified]
      exact text_injective.eq_iff
    refine ⟨same, fun lengths => same.trans ?_⟩
    constructor
    · rintro rfl
      exact ((ofBytes?_eq_some_iff (length_le_of_ofBytes? leftClassified)).1 leftClassified).inj
        ((ofBytes?_eq_some_iff (length_le_of_ofBytes? rightClassified)).1 rightClassified) lengths
    · rintro rfl
      exact Option.some.inj (leftClassified.symm.trans rightClassified)

/-- The longest text, and texts of a number and of bytes with the same value. -/
theorem written_texts_identify_widest :
    (∃ identifier, ofBytes? (List.replicate 32 0xFF) = some identifier ∧
      identifier.writtenText = '0' :: 'x' :: List.replicate 64 'f') ∧
    ofBytes? [0, 0, 0, 1] = some (number 1) ∧
    ofBytes? [0, 0, 0, 0, 1] = some (bytes [0, 0, 0, 0, 1]) ∧
    (number 1).writtenText ≠ (bytes [0, 0, 0, 0, 1]).writtenText ∧
    ofBytes? [0, 0, 1, 0] = some (number 256) ∧
    (number 1).writtenText ≠ (number 256).writtenText := by
  obtain ⟨whole, distinct⟩ := written_texts_identify
  have one : ofBytes? [0, 0, 0, 1] = some (number 1) := by decide
  have wide : ofBytes? [0, 0, 0, 0, 1] = some (bytes [0, 0, 0, 0, 1]) := by decide
  have other : ofBytes? [0, 0, 1, 0] = some (number 256) := by decide
  have apart := (distinct _ _ _ _ one wide).1.not.2 (by decide)
  have reordered := ((distinct _ _ _ _ one other).2 rfl).not.2 (by decide)
  obtain ⟨identifier, classified, _, written, _⟩ := whole (List.replicate 32 0xFF) (by decide)
  refine ⟨⟨identifier, classified, written.trans ?_⟩, one, wide, apart, other, reordered⟩
  cases classified
  decide

end Identifier

end BleBeacon
