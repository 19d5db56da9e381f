import BleBeacon.Proofs.Advertisement.Encoding
import BleBeacon.Proofs.Checked.Operations

/-!
# Walking with a cursor

A walk that keeps the whole buffer and a position in it, instead of the bytes that are left, reads
with indices and slices. None of these reads is ever outside the buffer: from any position a cursor
finds what the walk finds in the bytes from there on. So calling it again and again gives the
structures of the buffer one by one and then nothing, however often it is called.
-/

namespace BleBeacon.Advertisement

/-- A position in a buffer. -/
structure Cursor where
  buffer : List UInt8
  position : Nat
  deriving DecidableEq, Repr

namespace Cursor

def start (buffer : List UInt8) : Cursor :=
  ⟨buffer, 0⟩

/-- The bytes from the position on. -/
def rest (cursor : Cursor) : List UInt8 :=
  cursor.buffer.drop cursor.position

/-- The structure at the position, and the cursor behind it. Where the walk ends, the cursor moves
to the end of the buffer. -/
def next (cursor : Cursor) : Checked (Option AdStructure × Cursor) :=
  if cursor.buffer.length ≤ cursor.position then
    .ok (none, cursor)
  else do
    let length := (← Checked.get cursor.buffer cursor.position).toNat
    if length = 0 ∨ cursor.buffer.length < cursor.position + 1 + length then
      return (none, ⟨cursor.buffer, cursor.buffer.length⟩)
    else
      let adType ← Checked.get cursor.buffer (cursor.position + 1)
      let data ← Checked.slice cursor.buffer (cursor.position + 2) (cursor.position + 1 + length)
      return (some ⟨adType, data⟩, ⟨cursor.buffer, cursor.position + 1 + length⟩)

/-- What a call finds, after as many earlier calls as are given. -/
def call (cursor : Cursor) : (earlier : Nat) → Checked (Option AdStructure)
  | 0 => return (← cursor.next).1
  | earlier + 1 => do (← cursor.next).2.call earlier

@[simp] theorem rest_start (buffer : List UInt8) : (start buffer).rest = buffer := rfl

theorem getElem?_buffer (cursor : Cursor) (offset : Nat) :
    cursor.buffer[cursor.position + offset]? = cursor.rest[offset]? := by
  rw [rest, List.getElem?_drop]

theorem length_buffer {cursor : Cursor} {length : UInt8} {behind : List UInt8}
    (front : cursor.rest = length :: behind) :
    cursor.buffer.length = cursor.position + 1 + behind.length := by
  have total := congrArg List.length front
  rw [rest, List.length_drop, List.length_cons] at total
  omega

/-- A cursor finds the structure at the front of its rest, and reads nothing outside the buffer. -/
theorem exists_next_eq (cursor : Cursor) :
    ∃ behind, cursor.next = .ok ((Advertisement.next cursor.rest).1, behind) ∧
      behind.rest = (Advertisement.next cursor.rest).2 := by
  have atEnd : ∀ position, cursor.buffer.length ≤ position →
      rest ⟨cursor.buffer, position⟩ = [] := fun position => List.drop_eq_nil_of_le
  match front : cursor.rest with
  | [] =>
      have past : cursor.buffer.length ≤ cursor.position := List.drop_eq_nil_iff.1 front
      exact ⟨cursor, if_pos past, front⟩
  | length :: behind =>
      have total := length_buffer front
      have first : Checked.get cursor.buffer cursor.position = .ok length :=
        Checked.get_of_getElem? (by
          rw [← Nat.add_zero cursor.position, getElem?_buffer, front]
          rfl)
      rw [next, if_neg (by omega), first, Checked.ok_bind]
      match behind with
      | [] =>
          have stop : length.toNat = 0 ∨
              cursor.buffer.length < cursor.position + 1 + length.toNat := by
            rw [List.length_nil] at total
            omega
          rw [if_pos stop]
          exact ⟨_, rfl, atEnd _ (Nat.le_refl _)⟩
      | adType :: tail =>
          rw [List.length_cons] at total
          rw [next_cons_cons]
          have same : (length.toNat = 0 ∨
              cursor.buffer.length < cursor.position + 1 + length.toNat) ↔
              (length = 0 ∨ tail.length + 1 < length.toNat) := by
            rw [← UInt8.toNat_inj, UInt8.toNat_zero, total]
            omega
          by_cases stop : length = 0 ∨ tail.length + 1 < length.toNat
          · rw [if_pos (same.2 stop), if_pos stop]
            exact ⟨_, rfl, atEnd _ (Nat.le_refl _)⟩
          · rw [if_neg (mt same.1 stop), if_neg stop]
            rw [not_or, Nat.not_lt] at stop
            have second : Checked.get cursor.buffer (cursor.position + 1) = .ok adType :=
              Checked.get_of_getElem? (by rw [getElem?_buffer, front]; rfl)
            have behindType : cursor.buffer.drop (cursor.position + 2) = tail := by
              rw [← List.drop_drop, ← rest, front]
              rfl
            have positive : length.toNat ≠ 0 := fun zero => stop.1 (UInt8.toNat_inj.1 zero)
            have data : Checked.slice cursor.buffer (cursor.position + 2)
                (cursor.position + 1 + length.toNat) = .ok (tail.take (length.toNat - 1)) := by
              rw [Checked.slice_of_le (by omega) (by omega), List.drop_take, behindType]
              congr 2
              omega
            rw [second, Checked.ok_bind, data, Checked.ok_bind]
            refine ⟨_, rfl, ?_⟩
            have behindData : cursor.position + 1 + length.toNat =
                cursor.position + 2 + (length.toNat - 1) := by omega
            rw [rest, ← behindType, List.drop_drop, behindData]

theorem next_rest_of_next {cursor behind : Cursor} {found : Option AdStructure}
    (step : cursor.next = .ok (found, behind)) :
    Advertisement.next cursor.rest = (found, behind.rest) := by
  obtain ⟨other, taken, remaining⟩ := cursor.exists_next_eq
  rw [step, Except.ok.injEq, Prod.mk.injEq] at taken
  obtain ⟨rfl, rfl⟩ := taken
  rw [remaining]

/-- Every call gives the next structure of the bytes from the position on, and nothing once there
are no more. -/
theorem call_eq (cursor : Cursor) (earlier : Nat) :
    cursor.call earlier = .ok (structures cursor.rest)[earlier]? := by
  induction earlier generalizing cursor with
  | zero =>
      obtain ⟨behind, step, _⟩ := cursor.exists_next_eq
      rw [call, step, Checked.ok_bind, ← List.head?_eq_getElem?, (head?_and_tail_structures _).1]
      rfl
  | succ earlier ih =>
      obtain ⟨behind, step, remaining⟩ := cursor.exists_next_eq
      rw [call, step, Checked.ok_bind, ih, remaining, ← (head?_and_tail_structures _).2,
        List.getElem?_tail]

/-- A cursor that has found nothing finds nothing any more. -/
theorem call_of_next_none {cursor behind : Cursor} (stop : cursor.next = .ok (none, behind))
    (earlier : Nat) : behind.call earlier = .ok none := by
  have last := next_rest_of_next stop
  have exhausted : behind.rest = [] := congrArg Prod.snd (last.symm.trans (next_of_none last))
  rw [call_eq, exhausted, structures_of_ends .exhausted, List.getElem?_nil]

end Cursor

/-- The walk is the inverse of encoding. Encoded structures are found again in front of any bytes.
Any bytes are the encoding of the structures found in them and an end of the walk, of one of three
kinds, and at each of these nothing is found. Called as often as one likes, a cursor finds these
structures in order without reading outside the buffer, and from the first call on that finds none
it finds none. -/
theorem walk_inverts_encoding :
    (∀ (elements : List AdStructure) (tail : List UInt8),
      (∀ element ∈ elements, element.data.length ≤ 254) →
        structures (elements.flatMap AdStructure.encode ++ tail) = elements ++ structures tail) ∧
    (∀ bytes : List UInt8, (∀ element ∈ structures bytes, element.data.length ≤ 254) ∧
      ∃ rest, bytes = (structures bytes).flatMap AdStructure.encode ++ rest ∧ Ends rest) ∧
    (∀ rest : List UInt8, Ends rest → structures rest = []) ∧
    (∀ (bytes : List UInt8) (earlier : Nat),
      (Cursor.start bytes).call earlier = .ok (structures bytes)[earlier]?) ∧
    ∀ cursor behind : Cursor, cursor.next = .ok (none, behind) →
      ∀ earlier, behind.call earlier = .ok none := by
  refine ⟨?_, exists_eq_encode_append, fun _ => structures_of_ends, ?_, ?_⟩
  · intro elements tail short
    exact structures_flatMap_encode_append short tail
  · intro bytes earlier
    rw [Cursor.call_eq, Cursor.rest_start]
  · intro cursor behind
    exact Cursor.call_of_next_none

theorem walk_inverts_encoding_padded :
    structures ([⟨0x01, [6]⟩, ⟨0xFF, [0x4C, 0]⟩].flatMap AdStructure.encode ++ [0, 5]) =
        [⟨0x01, [6]⟩, ⟨0xFF, [0x4C, 0]⟩] ∧
      (Cursor.start [2, 1, 6, 3, 0xFF, 0x4C, 0, 0, 5]).call 1 = .ok (some ⟨0xFF, [0x4C, 0]⟩) ∧
      structures [9, 0xFF, 0x4C, 0] = [] ∧
      (Cursor.mk [2, 1, 6, 0, 5] 5).call 7 = .ok none := by
  obtain ⟨found, _, ends, calls, stopped⟩ := walk_inverts_encoding
  have walked := found [⟨0x01, [6]⟩, ⟨0xFF, [0x4C, 0]⟩] [0, 5] (by decide)
  rw [ends [0, 5] .padding, List.append_nil] at walked
  refine ⟨walked, ?_, ends _ (.cutOff (by decide) (by decide)), ?_⟩
  · rw [calls, show [2, 1, 6, 3, 0xFF, 0x4C, 0, 0, 5] =
      [⟨0x01, [6]⟩, ⟨0xFF, [0x4C, 0]⟩].flatMap AdStructure.encode ++ [0, 5] from rfl, walked]
    rfl
  · exact stopped ⟨[2, 1, 6, 0, 5], 3⟩ _ rfl 7

end BleBeacon.Advertisement
