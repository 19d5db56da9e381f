import BleBeacon.Proofs.Decoding

/-!
# What a reading is made from

A reading depends on the payload bytes at the ranges of the matcher, of the identifiers, of the data
fields and of a power that is not pinned, and on nothing else: payloads that agree there are read the
same, however long they are and whatever else they hold. Nothing of these bytes is lost either, because
at the width of its range each kind of field is an injective image of the bytes. So two payloads have
the same reading exactly if they agree at these ranges.
-/

namespace BleBeacon

/-! ## Payloads that agree at a range -/

namespace ByteRange

variable {range : ByteRange} {left right : List UInt8}

/-- Two payloads have the same byte, or both none, at every offset of a range. -/
def Agree (range : ByteRange) (left right : List UInt8) : Prop :=
  ∀ position, range.first ≤ position → position ≤ range.last → left[position]? = right[position]?

theorem Agree.symm (agree : range.Agree left right) : range.Agree right left :=
  fun position first last => (agree position first last).symm

variable (ordered : range.first ≤ range.last)
include ordered

theorem Agree.holds (agree : range.Agree left right) {bytes : List UInt8}
    (held : range.Holds left bytes) : range.Holds right bytes := by
  have width := first_add_width ordered
  refine ⟨held.length, fun offset within => ?_⟩
  rw [← held.byte offset within]
  exact (agree _ (Nat.le_add_right _ _) (by omega)).symm

theorem Agree.slice_eq (agree : range.Agree left right) : range.slice left = range.slice right := by
  apply Option.ext
  intro bytes
  rw [slice_eq_some_iff ordered, slice_eq_some_iff ordered]
  exact ⟨agree.holds ordered, agree.symm.holds ordered⟩

/-- Payloads with the same bytes at a range agree there. -/
theorem Holds.agree {bytes : List UInt8} (leftHeld : range.Holds left bytes)
    (rightHeld : range.Holds right bytes) : range.Agree left right := by
  have width := first_add_width ordered
  have length := leftHeld.length
  intro position first last
  rw [(holds_iff_getElem? length).1 leftHeld position first (by omega),
    (holds_iff_getElem? length).1 rightHeld position first (by omega)]

theorem Carries.agree {bytes : List UInt8} (leftCarried : range.Carries left bytes)
    (rightCarried : range.Carries right bytes) : range.Agree left right :=
  Holds.agree ordered leftCarried rightCarried

end ByteRange

/-! ## Fields are injective at their width -/

/-- Two byte strings of a width that are classified the same are the same. -/
theorem Identifier.Classifies.inj {left right : List UInt8} {identifier : Identifier}
    (first : Classifies left identifier) (second : Classifies right identifier)
    (lengths : left.length = right.length) : left = right := by
  cases first with
  | uuid => cases second with | uuid => rfl
  | number _ _ value =>
      cases second with
      | number _ _ other => exact Bytes.value_inj lengths (value.symm.trans other)
  | bytes => cases second with | bytes => rfl

/-- Two byte strings of a width that denote the same number in two's complement are the same. -/
theorem Bytes.bmod_value_inj {left right : List UInt8} (lengths : left.length = right.length)
    (same : (value left : Int).bmod (256 ^ left.length) =
      (value right : Int).bmod (256 ^ right.length)) : left = right := by
  apply value_inj lengths
  have remainders := congrArg (· % ((256 ^ left.length : Nat) : Int)) same
  rw [← lengths] at remainders
  simp only [Int.bmod_emod] at remainders
  have reduced : value left % 256 ^ left.length = value right % 256 ^ left.length := by
    exact_mod_cast remainders
  rwa [Nat.mod_eq_of_lt (value_lt left), Nat.mod_eq_of_lt (lengths ▸ value_lt right)] at reduced

namespace Layout

variable {layout : Layout}

/-! ## The ranges of a reading -/

/-- The ranges that a reading is made from. A pinned power is not read, and the UUID of a service
only selects the structure. -/
inductive Reads (layout : Layout) : ByteRange → Prop
  | matcher {matcher : Matcher} : matcher ∈ layout.matcher → Reads layout matcher.range
  | identifier {range : ByteRange} : range ∈ layout.identifiers → Reads layout range
  | dataField {range : ByteRange} : range ∈ layout.dataFields → Reads layout range
  | power {power : PowerField} : power ∈ layout.power → power.pinned = none →
      Reads layout power.range

/-- An offset lies in a range that a reading is made from. -/
def Covers (layout : Layout) (position : Nat) : Prop :=
  ∃ range, layout.Reads range ∧ range.first ≤ position ∧ position ≤ range.last

/-- Two payloads have the same byte, or both none, at every offset that a layout covers. -/
def Agree (layout : Layout) (left right : List UInt8) : Prop :=
  ∀ position, layout.Covers position → left[position]? = right[position]?

variable {left right : List UInt8}

theorem agree_iff : layout.Agree left right ↔ ∀ range, layout.Reads range → range.Agree left right :=
  ⟨fun agree range reads position first last => agree position ⟨range, reads, first, last⟩,
    fun agree position ⟨range, reads, first, last⟩ => agree range reads position first last⟩

variable (bounds : layout.WellFormed)
include bounds

theorem Reads.ordered {range : ByteRange} (reads : layout.Reads range) :
    range.first ≤ range.last := by
  cases reads with
  | matcher present => exact (bounds.matcher _ present).1.ordered
  | identifier member => exact (bounds.identifiers _ member).ordered
  | dataField member => exact (bounds.dataFields _ member).ordered
  | power present => exact (bounds.power _ present).1.ordered

/-- Payloads that agree where a layout covers them are read the same, or both not at all. -/
theorem Agree.readPayload_eq (agree : layout.Agree left right) :
    layout.readPayload left = layout.readPayload right := by
  have slices : ∀ range, layout.Reads range → range.slice left = range.slice right :=
    fun range reads => (agree_iff.1 agree range reads).slice_eq (reads.ordered bounds)
  have type : layout.readType left = layout.readType right := by
    unfold readType
    cases present : layout.matcher with
    | none => rfl
    | some matcher =>
        have accepts : matcher.accepts left = matcher.accepts right := by
          rw [Matcher.accepts, Matcher.accepts, slices _ (.matcher present)]
        simp only [accepts]
  have identifiers : (layout.identifiers.mapM fun range =>
        (range.read left).bind Identifier.ofBytes?) =
      layout.identifiers.mapM fun range => (range.read right).bind Identifier.ofBytes? :=
    mapM_congr_of_mem fun range member => by
      rw [ByteRange.read, ByteRange.read, slices range (.identifier member)]
  have dataFields : (layout.dataFields.mapM fun range => (range.read left).map Bytes.word) =
      layout.dataFields.mapM fun range => (range.read right).map Bytes.word :=
    mapM_congr_of_mem fun range member => by
      rw [ByteRange.read, ByteRange.read, slices range (.dataField member)]
  have power : layout.readPower left = layout.readPower right := by
    unfold readPower
    cases present : layout.power with
    | none => rfl
    | some field =>
        cases unpinned : field.pinned with
        | some _ => simp only [unpinned]
        | none => simp only [unpinned, slices _ (.power present unpinned)]
  rw [readPayload, readPayload, type, identifiers, dataFields, power]

/-- Payloads with the same reading agree at every range that it is made from. -/
theorem Describes.agree {reading : Reading} (leftDescribed : layout.Describes left reading)
    (rightDescribed : layout.Describes right reading)
    (leftMatched : ∀ matcher ∈ layout.matcher, matcher.range.Holds left matcher.bytes)
    (rightMatched : ∀ matcher ∈ layout.matcher, matcher.range.Holds right matcher.bytes) :
    layout.Agree left right := by
  refine agree_iff.2 fun range reads => ?_
  have ordered := reads.ordered bounds
  cases reads with
  | @matcher matcher present =>
      exact (leftMatched matcher present).agree ordered (rightMatched matcher present)
  | identifier member =>
      obtain ⟨_, ⟨bytes, carried, classified⟩, ⟨others, otherCarried, otherClassified⟩⟩ :=
        exists_shared_of_forall₂ leftDescribed.identifiers rightDescribed.identifiers range member
      have same : bytes = others :=
        classified.inj otherClassified (carried.length.trans otherCarried.length.symm)
      exact carried.agree ordered (same ▸ otherCarried)
  | dataField member =>
      obtain ⟨_, ⟨bytes, carried, value⟩, ⟨others, otherCarried, otherValue⟩⟩ :=
        exists_shared_of_forall₂ leftDescribed.dataFields rightDescribed.dataFields range member
      have same : bytes = others :=
        Bytes.value_inj (carried.length.trans otherCarried.length.symm)
          (value.symm.trans otherValue)
      exact carried.agree ordered (same ▸ otherCarried)
  | @power field present unpinned =>
      obtain ⟨range, pinned⟩ := field
      cases unpinned
      have given := leftDescribed.power
      have otherGiven := rightDescribed.power
      rw [present] at given otherGiven
      generalize reading.power = power at given otherGiven
      cases given with
      | @read _ bytes _ held value =>
          cases otherGiven with
          | @read _ others _ otherHeld otherValue =>
              have same : bytes = others :=
                Bytes.bmod_value_inj (held.length.trans otherHeld.length.symm)
                  (value.symm.trans otherValue)
              exact held.agree ordered (same ▸ otherHeld)

omit bounds

/-- Two payloads that a layout reads have the same reading exactly if they agree at the ranges of the
matcher, the identifiers, the data fields and a power that is not pinned. Whether a payload is read at
all depends on nothing else either. -/
theorem readings_eq_iff_agree {text : List Char} (parsed : parse text = .ok layout)
    (left right : List UInt8) :
    (∀ reading other, layout.readPayload left = some reading →
      layout.readPayload right = some other → (reading = other ↔ layout.Agree left right)) ∧
      (layout.Agree left right → layout.readPayload left = layout.readPayload right) := by
  have bounds := wellFormed_of_parse parsed
  refine ⟨fun reading other leftRead rightRead => ?_, Agree.readPayload_eq bounds⟩
  constructor
  · rintro rfl
    obtain ⟨leftMatched, leftDescribed⟩ := (readPayload_eq_some_iff bounds).1 leftRead
    obtain ⟨rightMatched, rightDescribed⟩ := (readPayload_eq_some_iff bounds).1 rightRead
    exact leftDescribed.agree bounds rightDescribed leftMatched rightMatched
  · intro agree
    have same := agree.readPayload_eq bounds
    rw [leftRead, rightRead] at same
    exact Option.some.inj same

/-- With an identifier and a data field that overlap, other bytes in front and behind make no
difference to a reading, and another byte of the data field does. -/
theorem readings_eq_iff_agree_overlapping :
    ∃ layout reading other, parse "m:2-2=05,i:3-4l,d:4-5,p:6-6".toList = .ok layout ∧
      layout.readPayload [0x99, 0x04, 5, 1, 2, 3, 0xC5] = some reading ∧
      layout.readPayload [0x18, 0x01, 5, 1, 2, 3, 0xC5, 0xFF] = some reading ∧
      layout.readPayload [0x99, 0x04, 5, 1, 2, 4, 0xC5] = some other ∧ reading ≠ other := by
  have parsed : parse "m:2-2=05,i:3-4l,d:4-5,p:6-6".toList =
      .ok { matcher := some ⟨⟨2, 2, false⟩, 5⟩
            identifiers := [⟨3, 4, true⟩]
            dataFields := [⟨4, 5, false⟩]
            power := some ⟨⟨6, 6, false⟩, none⟩ } := by
    rfl
  refine ⟨_, ⟨5, [.number 0x0201], [0x0203], some (-59)⟩,
    ⟨5, [.number 0x0201], [0x0204], some (-59)⟩, parsed, rfl, ?_, rfl, ?_⟩
  · refine ((readings_eq_iff_agree parsed [0x99, 0x04, 5, 1, 2, 3, 0xC5] _).2 ?_).symm
    rintro position ⟨range, reads, first, last⟩
    have inside : 2 ≤ range.first ∧ range.last ≤ 6 := by
      cases reads with
      | matcher present | power present =>
          cases present
          decide
      | identifier member | dataField member =>
          cases List.mem_singleton.1 member
          decide
    obtain rfl | rfl | rfl | rfl | rfl : position = 2 ∨ position = 3 ∨ position = 4 ∨
      position = 5 ∨ position = 6 := by omega
    all_goals rfl
  · intro same
    have agree := ((readings_eq_iff_agree parsed [0x99, 0x04, 5, 1, 2, 3, 0xC5]
      [0x99, 0x04, 5, 1, 2, 4, 0xC5]).1 _ _ rfl rfl).1 same
    have byte := agree 5
      ⟨⟨4, 5, false⟩, .dataField (List.mem_singleton_self _), by decide, by decide⟩
    exact absurd byte (by decide)

end Layout

end BleBeacon
