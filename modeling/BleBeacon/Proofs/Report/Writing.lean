import BleBeacon.Proofs.Json
import BleBeacon.Report.Basic

/-!
# Writing a report into a buffer

A line buffer takes text or refuses it. Below it there is a buffer of bytes that belongs to the
caller: a serializer copies its output there piece by piece, and the newline is set into the byte
behind it. Whatever the pieces are, the buffer takes the whole line if it is as long as the line,
and otherwise no length is reported. The line is a single one: its only byte below a space is the
newline at its end.
-/

namespace BleBeacon

/-- A buffer and the number of bytes that are written at its front. -/
structure Output where
  buffer : List UInt8
  length : Nat
  deriving DecidableEq, Repr

namespace Output

def start (buffer : List UInt8) : Output :=
  ⟨buffer, 0⟩

/-- Copies a piece behind what is written, if there is room for all of it. -/
def copy? (output : Output) (piece : List UInt8) : Option Output :=
  if output.length + piece.length ≤ output.buffer.length then
    some ⟨output.buffer.take output.length ++ piece ++
      output.buffer.drop (output.length + piece.length), output.length + piece.length⟩
  else
    none

def copyAll? (output : Output) : List (List UInt8) → Option Output
  | [] => some output
  | piece :: pieces => (output.copy? piece).bind fun copied => copied.copyAll? pieces

/-- Sets the byte behind what is written, if there is one. -/
def set? (output : Output) (byte : UInt8) : Option Output :=
  if output.length < output.buffer.length then
    some ⟨output.buffer.set output.length byte, output.length + 1⟩
  else
    none

/-- The bytes that are written. -/
def written (output : Output) : List UInt8 :=
  output.buffer.take output.length

end Output

namespace Report

/-- A serializer gives the bytes of the JSON object of a report, divided in one way or another. -/
def Serializes (serializer : Report → List (List UInt8)) : Prop :=
  ∀ report, (serializer report).flatten = Text.utf8 (Json.object report.members)

/-- Writes the line into a buffer: what the serializer gives, and a newline. -/
def serialize? (serializer : Report → List (List UInt8)) (report : Report)
    (buffer : List UInt8) : Option Output :=
  ((Output.start buffer).copyAll? (serializer report)).bind fun output => output.set? 0x0A

/-- The line as a message of at most `maxLineLength` bytes. -/
def message? (serializer : Report → List (List UInt8)) (report : Report) : Option (List UInt8) :=
  (report.serialize? serializer (List.replicate maxLineLength 0)).bind fun output =>
    if output.written.length ≤ maxLineLength then some output.written else none

end Report

/-! ## Bytes at the front of a buffer -/

namespace Output

/-- The output after bytes were written over the front of a buffer. -/
def filled (buffer bytes : List UInt8) : Output :=
  ⟨bytes ++ buffer.drop bytes.length, bytes.length⟩

@[simp] theorem length_filled (buffer bytes : List UInt8) :
    (filled buffer bytes).length = bytes.length := rfl

@[simp] theorem written_filled (buffer bytes : List UInt8) :
    (filled buffer bytes).written = bytes := by
  rw [written, filled, List.take_left']
  rfl

theorem length_buffer_filled {buffer bytes : List UInt8} (fits : bytes.length ≤ buffer.length) :
    (filled buffer bytes).buffer.length = buffer.length := by
  rw [filled, List.length_append, List.length_drop]
  exact Nat.add_sub_cancel' fits

/-- More bytes do not fit if the first ones do not. -/
theorem not_fits_append {front : List UInt8} {capacity : Nat} (long : ¬front.length ≤ capacity)
    (more : List UInt8) : ¬(front ++ more).length ≤ capacity :=
  fun whole => long (Nat.le_trans (List.prefix_append front more).length_le whole)

theorem copy?_filled {buffer bytes : List UInt8} (fits : bytes.length ≤ buffer.length)
    (piece : List UInt8) :
    (filled buffer bytes).copy? piece =
      if (bytes ++ piece).length ≤ buffer.length then some (filled buffer (bytes ++ piece))
      else none := by
  have front : (bytes ++ buffer.drop bytes.length).take bytes.length = bytes := List.take_left' rfl
  have rest : (bytes ++ buffer.drop bytes.length).drop (bytes.length + piece.length) =
      buffer.drop (bytes ++ piece).length := by
    rw [List.drop_length_add_append, List.drop_drop, List.length_append]
  rw [copy?, length_buffer_filled fits]
  simp only [filled, front, rest, List.length_append]

theorem set?_filled {buffer bytes : List UInt8} (fits : bytes.length ≤ buffer.length)
    (byte : UInt8) :
    (filled buffer bytes).set? byte =
      if (bytes ++ [byte]).length ≤ buffer.length then some (filled buffer (bytes ++ [byte]))
      else none := by
  rw [set?, length_buffer_filled fits, length_filled, List.length_append, List.length_singleton]
  by_cases room : bytes.length < buffer.length
  · have set : (bytes ++ buffer.drop bytes.length).set bytes.length byte =
        bytes ++ [byte] ++ buffer.drop (bytes.length + 1) := by
      rw [List.drop_eq_getElem_cons room, List.set_append_right bytes.length byte (Nat.le_refl _),
        Nat.sub_self, List.set_cons_zero, List.append_assoc, List.singleton_append]
    rw [if_pos room, if_pos (Nat.succ_le_of_lt room)]
    simp only [filled, set, List.length_append, List.length_singleton]
  · rw [if_neg room, if_neg (mt Nat.lt_of_succ_le room)]

/-- Pieces are copied exactly if all of them fit, and then they stand one behind the other. -/
theorem copyAll?_filled {buffer bytes : List UInt8} (fits : bytes.length ≤ buffer.length)
    (pieces : List (List UInt8)) :
    (filled buffer bytes).copyAll? pieces =
      if (bytes ++ pieces.flatten).length ≤ buffer.length then
        some (filled buffer (bytes ++ pieces.flatten))
      else none := by
  induction pieces generalizing bytes with
  | nil => rw [List.flatten_nil, List.append_nil, if_pos fits, copyAll?]
  | cons piece pieces ih =>
      rw [copyAll?, copy?_filled fits, List.flatten_cons, ← List.append_assoc]
      by_cases room : (bytes ++ piece).length ≤ buffer.length
      · rw [if_pos room, Option.bind_some, ih room]
      · rw [if_neg room, if_neg (not_fits_append room pieces.flatten), Option.bind_none]

end Output

/-! ## Lines -/

namespace Report

theorem bytes_eq (report : Report) :
    report.bytes = Text.utf8 (Json.object report.members) ++ [0x0A] := by
  rw [bytes, line, Text.utf8_append]
  rfl

theorem visible_members (report : Report) : ∀ member ∈ report.members, Text.Visible member := by
  simp only [members, List.forall_mem_append, List.forall_mem_cons, List.forall_mem_map]
  refine ⟨⟨⟨?type, ?mac, ?rssi, ?beaconType, ?identifiers, ?dataFields, List.forall_mem_nil _⟩,
    ?power⟩, ?timestamp, List.forall_mem_nil _⟩
  case type | mac => exact Json.visible_member _ (Json.visible_string _)
  case rssi => exact Json.visible_member _ (Json.visible_int _)
  case beaconType | timestamp => exact Json.visible_member _ (Json.visible_nat _)
  case power =>
    intro power _
    exact Json.visible_member _ (Json.visible_int _)
  case identifiers =>
    apply Json.visible_member
    apply Json.visible_array
    intro item member
    obtain ⟨identifier, _, rfl⟩ := List.mem_map.1 member
    exact Json.visible_string _
  case dataFields =>
    apply Json.visible_member
    apply Json.visible_array
    intro item member
    obtain ⟨field, _, rfl⟩ := List.mem_map.1 member
    exact Json.visible_nat _

/-- A line buffer takes the line exactly if its bytes fit. -/
theorem map_bytes_write? (report : Report) (capacity : Nat) :
    (report.write? capacity).map LineBuffer.bytes =
      if report.bytes.length ≤ capacity then some report.bytes else none := by
  cases result : report.write? capacity with
  | some buffer =>
      obtain ⟨same, text⟩ := LineBuffer.appendAll?_eq_some_iff.1 result
      rw [LineBuffer.text_empty, List.nil_append, flatten_pieces] at text
      have fits := buffer.fits
      rw [same, text, LineBuffer.capacity_empty, ← Text.length_utf8] at fits
      rw [Option.map_some, LineBuffer.bytes, text, bytes, if_pos fits]
  | none =>
      by_cases fits : Text.byteLength report.line ≤ capacity
      · have written : report.write? capacity = some ⟨capacity, report.line, fits⟩ := by
          apply LineBuffer.appendAll?_eq_some_iff.2
          rw [flatten_pieces]
          exact ⟨rfl, rfl⟩
        rw [written] at result
        cases result
      · rw [Option.map_none, bytes, Text.length_utf8, if_neg fits]

section

variable {serializer : Report → List (List UInt8)} (serializes : Serializes serializer)
include serializes

theorem serialize?_eq (report : Report) (buffer : List UInt8) :
    report.serialize? serializer buffer =
      if report.bytes.length ≤ buffer.length then some (.filled buffer report.bytes)
      else none := by
  have start : Output.start buffer = .filled buffer [] := rfl
  rw [serialize?, start, Output.copyAll?_filled (Nat.zero_le _), List.nil_append, serializes,
    bytes_eq]
  by_cases room : (Text.utf8 (Json.object report.members)).length ≤ buffer.length
  · rw [if_pos room, Option.bind_some, Output.set?_filled room]
  · rw [if_neg room, if_neg (Output.not_fits_append room [0x0A]), Option.bind_none]

theorem message?_eq (report : Report) :
    report.message? serializer =
      if report.bytes.length ≤ maxLineLength then some report.bytes else none := by
  rw [message?, serialize?_eq serializes, List.length_replicate]
  by_cases fits : report.bytes.length ≤ maxLineLength
  · rw [if_pos fits, if_pos fits, Option.bind_some, Output.written_filled, if_pos fits]
  · rw [if_neg fits, if_neg fits, Option.bind_none]

/-- A report has one line. A buffer takes it if it is long enough, whatever pieces the line is
written in, and otherwise takes nothing; a message takes it up to `maxLineLength`. The newline at
the end of the line is its only byte below a space. -/
theorem written_as_one_line (report : Report) :
    (∀ buffer, report.serialize? serializer buffer =
      if report.bytes.length ≤ buffer.length then
        some ⟨report.bytes ++ buffer.drop report.bytes.length, report.bytes.length⟩
      else none) ∧
    report.message? serializer =
      (if report.bytes.length ≤ maxLineLength then some report.bytes else none) ∧
    (∀ capacity, (report.write? capacity).map LineBuffer.bytes =
      if report.bytes.length ≤ capacity then some report.bytes else none) ∧
    ∃ body, report.bytes = body ++ [0x0A] ∧ ∀ byte ∈ body, 0x20 ≤ byte := by
  refine ⟨serialize?_eq serializes report, message?_eq serializes report, report.map_bytes_write?,
    Text.utf8 (Json.object report.members), report.bytes_eq, ?_⟩
  intro byte member
  exact (Json.visible_object report.visible_members).space_le member

end

/-- The serializer that gives one byte at a time. -/
def bytewise (report : Report) : List (List UInt8) :=
  (Text.utf8 (Json.object report.members)).map fun byte => [byte]

theorem serializes_bytewise : Serializes bytewise := by
  intro report
  rw [bytewise, ← List.flatMap_def, List.flatMap_singleton']

/-- An address that is not one, with a quote and a line break in it. -/
def brokenAddress : Report where
  format := .ruuviTag
  mac := "\"\n"
  rssi := -60
  beaconType := 0x990405
  identifiers := [.number 7]
  dataFields := []
  power := none
  timestamp := 1000

theorem length_bytes_brokenAddress : brokenAddress.bytes.length = 99 := by
  rw [bytes, Text.length_utf8]
  decide

/-- With room for the object alone, the newline does not fit. -/
theorem written_as_one_line_to_the_byte :
    brokenAddress.serialize? bytewise (List.replicate 99 0) = some ⟨brokenAddress.bytes, 99⟩ ∧
      brokenAddress.serialize? bytewise (List.replicate 98 0) = none ∧
      brokenAddress.message? bytewise = some brokenAddress.bytes := by
  obtain ⟨serialized, message, _⟩ := written_as_one_line serializes_bytewise brokenAddress
  rw [serialized, serialized, message, length_bytes_brokenAddress]
  exact ⟨by simp, by simp, rfl⟩

end Report

end BleBeacon
