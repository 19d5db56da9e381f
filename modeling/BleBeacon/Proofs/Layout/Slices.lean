import BleBeacon.Layout.WellFormed

/-!
# Bytes at a range

What a payload carries at a range, said byte by byte: an offset into the range is an offset into the
payload behind the first byte. Slicing and reading give exactly these bytes, and give nothing only if
the payload ends before the range does.
-/

namespace BleBeacon.ByteRange

/-- A payload has these bytes at a range, in the order in which they are transmitted. -/
structure Holds (range : ByteRange) (payload bytes : List UInt8) : Prop where
  length : bytes.length = range.width
  byte : ∀ offset < range.width, payload[range.first + offset]? = bytes[offset]?

/-- A payload has these bytes at a range, given most significant first. -/
def Carries (range : ByteRange) (payload bytes : List UInt8) : Prop :=
  range.Holds payload (if range.littleEndian then bytes.reverse else bytes)

theorem width_pos (range : ByteRange) : 0 < range.width :=
  Nat.succ_pos _

theorem first_add_width {range : ByteRange} (ordered : range.first ≤ range.last) :
    range.first + range.width = range.last + 1 := by
  rw [width]
  omega

theorem Holds.last_lt {range : ByteRange} (ordered : range.first ≤ range.last)
    {payload bytes : List UInt8} (held : range.Holds payload bytes) :
    range.last < payload.length := by
  -- The last byte of the range is a byte of the payload.
  have final : range.width - 1 < range.width := Nat.sub_one_lt_of_lt range.width_pos
  have last := held.byte (range.width - 1) final
  have present : range.width - 1 < bytes.length := by rwa [held.length]
  have offset : range.first + (range.width - 1) = range.last := by
    rw [width]
    omega
  rw [offset, List.getElem?_eq_getElem present] at last
  exact (List.getElem?_eq_some_iff.1 last).1

/-- The bytes at a range are the beginning of what follows its first offset. -/
theorem Holds.isPrefix {range : ByteRange} {payload bytes : List UInt8}
    (held : range.Holds payload bytes) : bytes <+: payload.drop range.first := by
  rw [List.prefix_iff_getElem?]
  intro offset inside
  rw [List.getElem?_drop, held.byte offset (held.length ▸ inside), List.getElem?_eq_getElem inside]

/-- Bytes of the right number are at a range exactly if they begin what follows its first offset. -/
theorem holds_iff_isPrefix {range : ByteRange} {payload bytes : List UInt8}
    (length : bytes.length = range.width) :
    range.Holds payload bytes ↔ bytes <+: payload.drop range.first := by
  constructor
  · exact Holds.isPrefix
  · intro front
    refine ⟨length, fun offset within => ?_⟩
    have inside : offset < bytes.length := length ▸ within
    rw [← List.getElem?_drop, List.prefix_iff_getElem?.1 front offset inside,
      List.getElem?_eq_getElem inside]

/-- The bytes at a range, by their offsets in the payload. -/
theorem holds_iff_getElem? {range : ByteRange} {payload bytes : List UInt8}
    (length : bytes.length = range.width) :
    range.Holds payload bytes ↔ ∀ position, range.first ≤ position →
      position < range.first + range.width →
        payload[position]? = bytes[position - range.first]? := by
  constructor
  · intro held position first within
    have byte := held.byte (position - range.first) (by omega)
    rwa [Nat.add_sub_cancel' first] at byte
  · intro each
    refine ⟨length, fun offset within => ?_⟩
    rw [each _ (Nat.le_add_right _ offset) (by omega), Nat.add_sub_cancel_left]

/-- A payload that is long enough has the bytes of its slice at a range. -/
theorem holds_slice {range : ByteRange} (ordered : range.first ≤ range.last)
    {payload : List UInt8} (inside : range.last < payload.length) :
    range.Holds payload ((payload.drop range.first).take range.width) := by
  constructor
  case length =>
    rw [List.length_take, List.length_drop, width]
    omega
  case byte =>
    intro offset within
    rw [List.getElem?_take_of_lt within, List.getElem?_drop]

theorem Holds.unique {range : ByteRange} {payload left right : List UInt8}
    (first : range.Holds payload left) (second : range.Holds payload right) : left = right := by
  apply List.ext_getElem?
  intro offset
  by_cases within : offset < range.width
  · rw [← first.byte offset within, second.byte offset within]
  · rw [List.getElem?_eq_none (by rw [first.length]; omega),
      List.getElem?_eq_none (by rw [second.length]; omega)]

theorem slice_eq_some_iff {range : ByteRange} (ordered : range.first ≤ range.last)
    {payload bytes : List UInt8} :
    range.slice payload = some bytes ↔ range.Holds payload bytes := by
  have width : range.last + 1 - range.first = range.width := by
    rw [width]
    omega
  rw [slice, width, Option.ite_none_right_eq_some, Option.some.injEq]
  constructor
  · rintro ⟨⟨_, inside⟩, rfl⟩
    exact holds_slice ordered inside
  · intro held
    have inside := held.last_lt ordered
    exact ⟨⟨by omega, inside⟩, (holds_slice ordered inside).unique held⟩

theorem read_eq_some_iff {range : ByteRange} (ordered : range.first ≤ range.last)
    {payload bytes : List UInt8} :
    range.read payload = some bytes ↔ range.Carries payload bytes := by
  rw [read, Option.map_eq_some_iff, Carries]
  simp only [slice_eq_some_iff ordered]
  cases range.littleEndian with
  | false => simp
  | true =>
      constructor
      · rintro ⟨sent, held, rfl⟩
        simpa using held
      · intro held
        exact ⟨bytes.reverse, by simpa using held, by simp⟩

theorem Carries.length {range : ByteRange} {payload bytes : List UInt8}
    (carried : range.Carries payload bytes) : bytes.length = range.width := by
  have sent := Holds.length carried
  split at sent
  · rwa [List.length_reverse] at sent
  · exact sent

theorem Carries.last_lt {range : ByteRange} (ordered : range.first ≤ range.last)
    {payload bytes : List UInt8} (carried : range.Carries payload bytes) :
    range.last < payload.length :=
  Holds.last_lt ordered carried

/-- A payload that is long enough carries some bytes at a range. -/
theorem exists_carries {range : ByteRange} (ordered : range.first ≤ range.last)
    {payload : List UInt8} (inside : range.last < payload.length) :
    ∃ bytes, range.Carries payload bytes := by
  have held := holds_slice ordered inside
  cases little : range.littleEndian with
  | false => exact ⟨_, by simpa [Carries, little] using held⟩
  | true =>
      refine ⟨((payload.drop range.first).take range.width).reverse, ?_⟩
      rw [Carries, little, if_pos rfl, List.reverse_reverse]
      exact held

end BleBeacon.ByteRange
