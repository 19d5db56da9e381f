import BleBeacon.Layout.Field
import BleBeacon.Proofs.Advertisement.Cursor
import BleBeacon.Proofs.Layout.Bounds
import BleBeacon.Proofs.Layout.Slices
import BleBeacon.Reading

/-!
# Checked texts and readings

The text of a layout and what it reads from an advertisement, computed in checked operations: the
width of a range is a difference, the bytes of a matcher are cut out of a word and copied, a sign is
spread by shifts, and identifiers and data fields are collected in lists of a fixed capacity. Within
the bounds of a layout nothing faults, so the results are those of the unchecked functions.
-/

namespace BleBeacon

/-! ## Texts -/

def ByteRange.widthChecked (range : ByteRange) : Checked Nat :=
  return (← Checked.subtract range.last range.first) + 1

theorem ByteRange.widthChecked_eq {range : ByteRange} (ordered : range.first ≤ range.last) :
    range.widthChecked = .ok range.width := by
  rw [widthChecked, Checked.subtract_of_le ordered]
  rfl

/-- The low bytes of a word end the bytes of the whole word. -/
theorem Bytes.drop_ofWord (front width : Nat) (total : UInt64) :
    (ofWord (front + width) total).drop front = ofWord width total := by
  induction width generalizing total with
  | zero => exact List.drop_eq_nil_of_le (length_ofWord _ _).le
  | succ width ih =>
      rw [← Nat.add_assoc, ofWord, ofWord, List.drop_append_of_le_length, ih]
      rw [length_ofWord]
      exact Nat.le_add_right _ _

def Matcher.bytesChecked (matcher : Matcher) : Checked (List UInt8) := do
  let all := Bytes.ofWord 8 matcher.expected
  let first ← Checked.subtract all.length (← matcher.range.widthChecked)
  Checked.copy Layout.maxMatcherWidth (← Checked.slice all first all.length)

theorem Matcher.bytesChecked_eq {matcher : Matcher}
    (bounds : matcher.range.Within Layout.maxMatcherWidth) :
    matcher.bytesChecked = .ok matcher.bytes := by
  have narrow : matcher.range.width ≤ 8 := bounds.width_le
  have low : (Bytes.ofWord 8 matcher.expected).drop (8 - matcher.range.width) = matcher.bytes := by
    have whole := Bytes.drop_ofWord (8 - matcher.range.width) matcher.range.width matcher.expected
    rwa [Nat.sub_add_cancel narrow] at whole
  rw [bytesChecked, ByteRange.widthChecked_eq bounds.ordered, Checked.ok_bind,
    Bytes.length_ofWord, Checked.subtract_of_le narrow, Checked.ok_bind,
    Checked.slice_of_le (Nat.sub_le _ _) (Bytes.length_ofWord _ _).ge, Checked.ok_bind,
    List.take_of_length_le (Bytes.length_ofWord _ _).le, low, Checked.copy_of_le]
  rwa [length_bytes]

namespace Field

def valueTextChecked : Field → Checked (List Char)
  | matcher part => return '=' :: Text.Hex.encode (← part.bytesChecked)
  | field => .ok field.valueText

def textChecked (field : Field) : Checked (List Char) :=
  return field.kind.letter :: ':' :: field.range.text ++ (← field.valueTextChecked)

theorem textChecked_eq {field : Field} (bounds : field.WellFormed) :
    field.textChecked = .ok field.text := by
  have value : field.valueTextChecked = .ok field.valueText := by
    cases field with
    | matcher part =>
        rw [valueTextChecked, Matcher.bytesChecked_eq bounds.1]
        rfl
    | service | identifier | data | power => rfl
  rw [textChecked, value]
  rfl

end Field

namespace Layout

def textChecked (layout : Layout) : Checked (List Char) :=
  return [','].intercalate (← layout.fields.mapM Field.textChecked)

theorem textChecked_eq {layout : Layout} (bounds : layout.WellFormed) :
    layout.textChecked = .ok layout.text := by
  obtain ⟨_, fields, _⟩ := wellFormed_iff.1 bounds
  have texts : layout.fields.mapM Field.textChecked = .ok (layout.fields.map Field.text) :=
    Checked.mapM_eq_ok fun field member => Field.textChecked_eq (fields field member)
  rw [textChecked, texts]
  rfl

end Layout

/-! ## Fields of a payload -/

def Bytes.signedChecked (bytes : List UInt8) : Checked Int32 := do
  let unused ← Checked.shiftAmount (← Checked.subtract 64 (8 * bytes.length))
  return ((word bytes <<< unused).toInt64 >>> unused.toInt64).toInt32

theorem Bytes.signedChecked_eq {bytes : List UInt8} (positive : 0 < bytes.length)
    (short : bytes.length ≤ 8) : signedChecked bytes = .ok (signed bytes) := by
  rw [signedChecked, Checked.subtract_of_le (by omega), Checked.ok_bind,
    Checked.shiftAmount_of_lt (by omega)]
  rfl

/-- Classifies bytes, and copies those that stay bytes. -/
def Identifier.ofBytesChecked (bytes : List UInt8) : Checked Identifier :=
  if sixteen : bytes.length = 16 then
    .ok (.uuid ⟨bytes, sixteen⟩)
  else if 1 ≤ bytes.length ∧ bytes.length ≤ 4 then
    .ok (.number (Bytes.word bytes).toUInt32)
  else
    return .bytes (← Checked.copy maxWidth bytes)

theorem Identifier.ofBytesChecked_eq {bytes : List UInt8} (short : bytes.length ≤ maxWidth) :
    (liftM (ofBytesChecked bytes) : OptionT Checked Identifier) =
      Checked.ofOption (ofBytes? bytes) := by
  unfold ofBytesChecked ofBytes?
  split
  · rfl
  · split
    · rfl
    · rw [Checked.copy_of_le short]
      rfl

namespace ByteRange

/-- The identifier at a range. Bytes are copied before they are reversed. -/
def identifierChecked (range : ByteRange) (payload : List UInt8) : OptionT Checked Identifier := do
  let bytes ← Checked.ofOption (range.slice payload)
  if range.littleEndian then
    let swapped ← Checked.copy Identifier.maxWidth bytes
    Identifier.ofBytesChecked swapped.reverse
  else
    Identifier.ofBytesChecked bytes

theorem Within.identifierChecked_eq {range : ByteRange}
    (bounds : range.Within Layout.maxIdentifierWidth) (payload : List UInt8) :
    range.identifierChecked payload =
      Checked.ofOption ((range.read payload).bind Identifier.ofBytes?) := by
  rw [identifierChecked, read]
  cases sliced : range.slice payload with
  | none => rfl
  | some bytes =>
      have short : bytes.length ≤ Identifier.maxWidth := by
        rw [length_of_slice bounds.ordered sliced]
        exact bounds.width_le
      rw [Checked.ofOption_some_bind, Option.map_some, Option.bind_some]
      split
      · rw [Checked.copy_of_le short]
        exact Identifier.ofBytesChecked_eq (by rwa [List.length_reverse])
      · exact Identifier.ofBytesChecked_eq short

end ByteRange

namespace Layout

/-- Collects what is read at ranges, unless something cannot be read. -/
def collectChecked {α : Type} (capacity : Nat) (read : ByteRange → OptionT Checked α) :
    (found : List α) → List ByteRange → OptionT Checked (List α)
  | found, [] => return found
  | found, range :: ranges => do
      let item ← read range
      collectChecked capacity read (← Checked.push capacity found item) ranges

theorem collectChecked_eq {α : Type} {capacity : Nat} {read : ByteRange → OptionT Checked α}
    {plain : ByteRange → Option α} {ranges : List ByteRange} (found : List α)
    (each : ∀ range ∈ ranges, read range = Checked.ofOption (plain range))
    (room : found.length + ranges.length ≤ capacity) :
    collectChecked capacity read found ranges =
      Checked.ofOption ((ranges.mapM plain).map (found ++ ·)) := by
  induction ranges generalizing found with
  | nil =>
      rw [collectChecked, List.mapM_nil, Option.pure_def, Option.map_some, List.append_nil]
      rfl
  | cons range ranges ih =>
      obtain ⟨head, rest⟩ := List.forall_mem_cons.1 each
      rw [List.length_cons] at room
      rw [collectChecked, head, List.mapM_cons]
      cases plain range with
      | none => rfl
      | some item =>
          have longer : (found ++ [item]).length = found.length + 1 := List.length_append
          rw [Checked.ofOption_some_bind, Checked.push_of_lt (by omega), Checked.liftM_ok_optionT,
            Checked.ofOption_some_bind, ih _ rest (by omega)]
          cases ranges.mapM plain with
          | none => rfl
          | some items =>
              exact congrArg (Checked.ofOption ∘ some) (List.append_assoc found [item] items)

def powerChecked (layout : Layout) (payload : List UInt8) : OptionT Checked (Option Int32) :=
  match layout.power with
  | none => return none
  | some power =>
      match power.pinned with
      | some pinned => return some pinned
      | none => do
          let bytes ← Checked.ofOption (power.range.slice payload)
          return some (← Bytes.signedChecked bytes)

theorem powerChecked_eq {layout : Layout} (bounds : layout.WellFormed) (payload : List UInt8) :
    layout.powerChecked payload = Checked.ofOption (layout.readPower payload) := by
  rw [powerChecked, readPower]
  cases present : layout.power with
  | none => rfl
  | some power =>
      obtain ⟨range, pinned⟩ := power
      obtain ⟨within, _⟩ := bounds.power _ present
      cases pinned with
      | some => rfl
      | none =>
          cases sliced : range.slice payload with
          | none =>
              simp only [sliced]
              rfl
          | some bytes =>
              have width : bytes.length = range.width :=
                ByteRange.length_of_slice within.ordered sliced
              have narrow : range.width ≤ 4 := within.width_le
              simp only [sliced]
              rw [Checked.ofOption_some_bind,
                Bytes.signedChecked_eq (width ▸ range.width_pos) (by omega)]
              rfl

def payloadChecked (layout : Layout) (payload : List UInt8) : OptionT Checked Reading := do
  let beaconType ← Checked.ofOption (layout.readType payload)
  let identifiers ← collectChecked maxIdentifiers (·.identifierChecked payload) []
    layout.identifiers
  let dataFields ← collectChecked maxDataFields
    (fun range => Checked.ofOption ((range.read payload).map Bytes.word)) [] layout.dataFields
  let power ← layout.powerChecked payload
  return { beaconType, identifiers, dataFields, power }

theorem payloadChecked_eq {layout : Layout} (bounds : layout.WellFormed) (payload : List UInt8) :
    layout.payloadChecked payload = Checked.ofOption (layout.readPayload payload) := by
  have identifiers := collectChecked_eq []
    (fun range member => (bounds.identifiers range member).identifierChecked_eq payload)
    (by simpa using bounds.identifiers_le)
  have dataFields : collectChecked maxDataFields
      (fun range => Checked.ofOption ((range.read payload).map Bytes.word)) [] layout.dataFields =
      Checked.ofOption ((layout.dataFields.mapM fun range : ByteRange =>
        (range.read payload).map Bytes.word).map ([] ++ ·)) :=
    collectChecked_eq [] (fun _ _ => rfl) (by simpa using bounds.dataFields_le)
  have reading : ∀ found : Reading,
      (pure found : OptionT Checked Reading) = Checked.ofOption (some found) :=
    fun _ => rfl
  rw [payloadChecked, identifiers, dataFields, powerChecked_eq bounds, readPayload]
  simp only [List.nil_append, Option.map_id', reading, Checked.ofOption_bind]
  rfl

end Layout

/-! ## Advertisements -/

namespace Advertisement.Cursor

theorem length_rest_lt_of_next {cursor behind : Cursor} {element : AdStructure}
    (step : cursor.next = .ok (some element, behind)) :
    behind.rest.length < cursor.rest.length := by
  have taken := next_rest_of_next step
  have shorter := length_next_lt (congrArg Prod.fst taken)
  rwa [taken] at shorter

/-- The first result of the structures from the position on. -/
def findSome? {α : Type} (read : AdStructure → Checked (Option α)) (cursor : Cursor) :
    Checked (Option α) :=
  match _step : cursor.next with
  | .error fault => .error fault
  | .ok (none, _) => .ok none
  | .ok (some element, behind) => do
      match ← read element with
      | some result => return some result
      | none => behind.findSome? read
termination_by cursor.rest.length
decreasing_by exact length_rest_lt_of_next _step

theorem findSome?_eq {α : Type} {read : AdStructure → Checked (Option α)}
    {plain : AdStructure → Option α} (each : ∀ element, read element = .ok (plain element))
    (cursor : Cursor) :
    cursor.findSome? read = .ok ((structures cursor.rest).findSome? plain) := by
  fun_induction findSome? read cursor with
  | case1 cursor fault step =>
      obtain ⟨_, taken, _⟩ := cursor.exists_next_eq
      rw [step] at taken
      cases taken
  | case2 cursor behind step =>
      have stop := next_of_none (next_rest_of_next step)
      rw [structures_of_ends (next_eq_none_iff.1 stop)]
      rfl
  | case3 cursor element behind step ih =>
      rw [structures_of_next (next_rest_of_next step), List.findSome?_cons, each, Checked.ok_bind]
      cases plain element with
      | some result => rfl
      | none => exact ih

end Advertisement.Cursor

namespace Layout

def structureChecked (layout : Layout) (element : AdStructure) : Checked (Option Reading) :=
  if layout.selects element then (layout.payloadChecked element.data).run else .ok none

def decodeChecked (layout : Layout) (advertisement : List UInt8) : Checked (Option Reading) :=
  (Advertisement.Cursor.start advertisement).findSome? layout.structureChecked

theorem decodeChecked_eq {layout : Layout} (bounds : layout.WellFormed)
    (advertisement : List UInt8) :
    layout.decodeChecked advertisement = .ok (layout.decode advertisement) := by
  refine Advertisement.Cursor.findSome?_eq (fun element => ?_) _
  unfold structureChecked readStructure
  split
  · exact payloadChecked_eq bounds element.data
  · rfl

end Layout

end BleBeacon
