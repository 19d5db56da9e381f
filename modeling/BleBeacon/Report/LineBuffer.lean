import BleBeacon.Text.Utf8

/-!
# Bounded line buffers

A line buffer holds text up to a capacity in bytes and takes pieces that still fit. Pieces are
written one after the other; whether all of them fit depends on their total length alone.
-/

namespace BleBeacon

structure LineBuffer where
  /-- The most bytes that the buffer takes. -/
  capacity : Nat
  text : List Char
  fits : Text.byteLength text ≤ capacity
  deriving Repr

namespace LineBuffer

def empty (capacity : Nat) : LineBuffer :=
  ⟨capacity, [], Nat.zero_le _⟩

/-- The number of bytes written so far. -/
def length (buffer : LineBuffer) : Nat :=
  Text.byteLength buffer.text

/-- The bytes written so far. -/
def bytes (buffer : LineBuffer) : List UInt8 :=
  Text.utf8 buffer.text

/-- The buffer with one more piece, if it fits. -/
def append? (buffer : LineBuffer) (piece : List Char) : Option LineBuffer :=
  if fits : Text.byteLength (buffer.text ++ piece) ≤ buffer.capacity then
    some ⟨buffer.capacity, buffer.text ++ piece, fits⟩
  else
    none

/-- The buffer with more pieces, if all of them fit. -/
def appendAll? (buffer : LineBuffer) : List (List Char) → Option LineBuffer
  | [] => some buffer
  | piece :: pieces =>
      match buffer.append? piece with
      | some extended => extended.appendAll? pieces
      | none => none

@[simp] theorem text_empty (capacity : Nat) : (empty capacity).text = [] := rfl

@[simp] theorem capacity_empty (capacity : Nat) : (empty capacity).capacity = capacity := rfl

theorem append?_eq_some_iff {buffer extended : LineBuffer} {piece : List Char} :
    buffer.append? piece = some extended ↔
      extended.capacity = buffer.capacity ∧ extended.text = buffer.text ++ piece := by
  obtain ⟨capacity, text, fits⟩ := extended
  constructor
  · intro appended
    simp only [append?, Option.dite_none_right_eq_some, Option.some.injEq, mk.injEq] at appended
    exact ⟨appended.2.1.symm, appended.2.2.symm⟩
  · rintro ⟨rfl, rfl⟩
    exact dif_pos fits

/-- All pieces are written exactly if their total length fits. -/
theorem appendAll?_eq_some_iff {buffer extended : LineBuffer} {pieces : List (List Char)} :
    buffer.appendAll? pieces = some extended ↔
      extended.capacity = buffer.capacity ∧ extended.text = buffer.text ++ pieces.flatten := by
  induction pieces generalizing buffer with
  | nil =>
      obtain ⟨capacity, text, fits⟩ := buffer
      obtain ⟨extendedCapacity, extendedText, extendedFits⟩ := extended
      simp [appendAll?, eq_comm]
  | cons piece pieces ih =>
      rw [appendAll?]
      cases step : buffer.append? piece with
      | none =>
          constructor
          · intro impossible
            cases impossible
          · rintro ⟨capacity, text⟩
            have fits := extended.fits
            simp only [append?, dite_eq_right_iff, reduceCtorEq, imp_false] at step
            simp only [text, capacity, List.flatten_cons, Text.byteLength_append] at fits step
            omega
      | some middle =>
          obtain ⟨capacity, text⟩ := append?_eq_some_iff.1 step
          simp [ih, capacity, text, List.append_assoc]

end LineBuffer

end BleBeacon
