import BleBeacon.Catalog.Basic
import BleBeacon.Proofs.Advertisement.Encoding
import BleBeacon.Proofs.Catalog
import BleBeacon.Proofs.Decoding
import Mathlib.Algebra.Order.BigOperators.Group.List
import Mathlib.Data.List.Perm.Basic

/-!
# Exclusive layouts

Two layouts exclude each other if they read different sources, or if they ask for different bytes at
the same payload offset: no AD structure is accepted by both. An advertisement may still hold a
structure for each of them, but then it is at least as long as the shortest such structures
together. So an advertisement that is shorter has at most one claimant in a catalog of layouts that
exclude each other, and the order of its entries does not matter to what is decoded.
-/

namespace BleBeacon

/-! ## One structure -/

/-- Bytes with the payload offsets at which a range has them. -/
def ByteRange.pins (range : ByteRange) (bytes : List UInt8) : List (UInt8 × Nat) :=
  bytes.zipIdx range.first

theorem ByteRange.Holds.getElem?_of_mem_pins {range : ByteRange} {payload bytes : List UInt8}
    (held : range.Holds payload bytes) {byte : UInt8} {offset : Nat}
    (pin : (byte, offset) ∈ range.pins bytes) : payload[offset]? = some byte := by
  obtain ⟨behind, present⟩ := List.mk_mem_zipIdx_iff_le_and_getElem?_sub.1 pin
  have inside : offset - range.first < range.width :=
    held.length ▸ (List.getElem?_eq_some_iff.1 present).1
  rw [← Nat.add_sub_of_le behind, held.byte _ inside]
  exact present

namespace Layout

/-- The bytes that a layout asks for, with their payload offsets. -/
def pins (layout : Layout) : List (UInt8 × Nat) :=
  (layout.matcher.toList.flatMap fun matcher => matcher.range.pins matcher.bytes) ++
    layout.service.toList.flatMap fun service => service.range.pins service.uuid.onAir

/-- Whether two layouts read different sources or ask for different bytes at an offset. -/
def excludes (layout other : Layout) : Bool :=
  layout.service.isSome != other.service.isSome ||
    layout.pins.any fun pin => other.pins.any fun otherPin =>
      pin.2 == otherPin.2 && pin.1 != otherPin.1

/-- The ranges that a payload has to reach to be accepted. -/
def required (layout : Layout) : List ByteRange :=
  layout.matcher.toList.map (·.range) ++ layout.service.toList.map (·.range) ++
    layout.identifiers ++ layout.dataFields ++
    (layout.power.toList.filter (·.pinned.isNone)).map (·.range)

/-- The size that an accepted structure has at least: behind its length and its type byte the
payload reaches every range. -/
def span (layout : Layout) : Nat :=
  layout.required.foldr (fun range span => max (range.last + 3) span) 2

variable {layout other : Layout} {element : AdStructure}

theorem Sourced.isSome_service (sourced : layout.Sourced element) :
    layout.service.isSome = (element.adType != 0xFF) := by
  cases sourced with
  | manufacturer service type => simp [service, type]
  | assigned service type _ => simp [service, type]
  | full service type _ => rcases type with type | type <;> simp [service, type]

theorem Accepts.getElem?_of_mem_pins (accepted : layout.Accepts element) {byte : UInt8}
    {offset : Nat} (pin : (byte, offset) ∈ layout.pins) : element.data[offset]? = some byte := by
  rw [pins, List.mem_append, List.mem_flatMap, List.mem_flatMap] at pin
  rcases pin with ⟨matcher, present, pin⟩ | ⟨service, present, pin⟩
  · exact (accepted.matcher matcher (Option.mem_toList.1 present)).getElem?_of_mem_pins pin
  · have sourced := (sourced_iff_of_service (Option.mem_toList.1 present)).1 accepted.source
    exact sourced.2.getElem?_of_mem_pins pin

/-- No structure is accepted by layouts that exclude each other. -/
theorem Accepts.not_of_excludes (accepted : layout.Accepts element)
    (apart : layout.excludes other = true) : ¬other.Accepts element := by
  intro shared
  rw [excludes, Bool.or_eq_true, bne_iff_ne] at apart
  rcases apart with sources | bytes
  · exact sources (accepted.source.isSome_service.trans shared.source.isSome_service.symm)
  · simp only [List.any_eq_true, Bool.and_eq_true, beq_iff_eq, bne_iff_ne] at bytes
    obtain ⟨⟨byte, offset⟩, pin, ⟨otherByte, _⟩, otherPin, rfl, different⟩ := bytes
    have held := accepted.getElem?_of_mem_pins pin
    rw [shared.getElem?_of_mem_pins otherPin] at held
    exact different (Option.some.inj held).symm

theorem Accepts.last_lt_of_mem_required (bounds : layout.WellFormed)
    (accepted : layout.Accepts element) :
    ∀ range ∈ layout.required, range.last < element.data.length := by
  simp only [required, List.forall_mem_append, List.forall_mem_map, Option.mem_toList,
    List.mem_filter]
  refine ⟨⟨⟨⟨?_, ?_⟩, accepted.identifiers⟩, accepted.dataFields⟩, ?_⟩
  · intro matcher present
    exact (accepted.matcher matcher present).last_lt (bounds.matcher matcher present).1.ordered
  · intro service present
    have sourced := (sourced_iff_of_service present).1 accepted.source
    exact sourced.2.last_lt (bounds.service service present).1.ordered
  · rintro power ⟨present, unpinned⟩
    exact accepted.power power present (Option.isNone_iff_eq_none.1 unpinned)

theorem Accepts.span_le (bounds : layout.WellFormed) (accepted : layout.Accepts element) :
    layout.span ≤ element.size := by
  have reached := accepted.last_lt_of_mem_required bounds
  rw [span]
  generalize layout.required = ranges at reached
  induction ranges with
  | nil => exact Nat.le_add_left 2 _
  | cons range ranges ih =>
      obtain ⟨head, rest⟩ := List.forall_mem_cons.1 reached
      exact Nat.max_le.2 ⟨Nat.add_le_add_right head 2, ih rest⟩

end Layout

/-! ## One advertisement -/

namespace Advertisement

/-- Together the structures of an advertisement are not longer than it is. -/
theorem sum_size_structures_le (bytes : List UInt8) :
    ((structures bytes).map AdStructure.size).sum ≤ bytes.length := by
  obtain ⟨_, rest, whole, _⟩ := exists_eq_encode_append bytes
  have total := congrArg List.length whole
  rw [List.length_append, List.length_flatMap] at total
  exact total ▸ Nat.le_add_right _ rest.length

/-- Two different structures of an advertisement both have room in it. -/
theorem add_size_le {bytes : List UInt8} {element other : AdStructure}
    (first : element ∈ structures bytes) (second : other ∈ structures bytes)
    (different : element ≠ other) : element.size + other.size ≤ bytes.length := by
  have remaining : other ∈ (structures bytes).erase element :=
    (List.mem_erase_of_ne different.symm).2 second
  have split := ((List.perm_cons_erase first).map AdStructure.size).sum_eq
  rw [List.map_cons, List.sum_cons] at split
  have room := List.le_sum_of_mem (List.mem_map_of_mem (f := AdStructure.size) remaining)
  have total := sum_size_structures_le bytes
  omega

end Advertisement

namespace Layout

/-- What is decoded by layouts that exclude each other has room for a structure of each. -/
theorem span_add_span_le {layout other : Layout} (bounds : layout.WellFormed)
    (otherBounds : other.WellFormed) (apart : layout.excludes other = true)
    {advertisement : List UInt8} (decoded : (layout.decode advertisement).isSome = true)
    (otherDecoded : (other.decode advertisement).isSome = true) :
    layout.span + other.span ≤ advertisement.length := by
  obtain ⟨element, present, read⟩ := List.findSome?_isSome_iff.1 decoded
  obtain ⟨second, otherPresent, otherRead⟩ := List.findSome?_isSome_iff.1 otherDecoded
  have accepted := (isSome_readStructure_iff bounds).1 read
  have otherAccepted := (isSome_readStructure_iff otherBounds).1 otherRead
  have different : element ≠ second := by
    rintro rfl
    exact accepted.not_of_excludes apart otherAccepted
  exact (Nat.add_le_add (accepted.span_le bounds) (otherAccepted.span_le otherBounds)).trans
    (Advertisement.add_size_le present otherPresent different)

end Layout

/-! ## Catalogs -/

section Unique

variable {α β : Type}

theorem countP_le_one_of_pairwise {holds : α → Bool} {items : List α}
    (exclusive : items.Pairwise fun item other => ¬(holds item = true ∧ holds other = true)) :
    items.countP holds ≤ 1 := by
  induction items with
  | nil => exact Nat.zero_le 1
  | cons item items ih =>
      obtain ⟨head, rest⟩ := List.pairwise_cons.1 exclusive
      by_cases held : holds item = true
      · have none : items.countP holds = 0 :=
          List.countP_eq_zero.2 fun other member both => head other member ⟨held, both⟩
        rw [List.countP_cons_of_pos held, none]
      · rw [List.countP_cons_of_neg held]
        exact ih rest

/-- Where at most one item gives a result, the order of the items does not matter. -/
theorem findSome?_eq_of_perm {read : α → Option β} {items others : List α}
    (perm : others.Perm items) (unique : items.countP (fun item => (read item).isSome) ≤ 1) :
    others.findSome? read = items.findSome? read := by
  have results := perm.filterMap read
  rw [← List.length_filterMap_eq_countP] at unique
  rw [← List.head?_filterMap, ← List.head?_filterMap]
  cases found : items.filterMap read with
  | nil =>
      rw [found, List.perm_nil] at results
      rw [results]
  | cons result more =>
      rw [found, List.length_cons] at unique
      have single : more = [] := List.length_eq_zero_iff.1 (by omega)
      rw [found, single, List.perm_singleton] at results
      rw [results, single]

end Unique

namespace Catalog

/-- The layouts of a catalog exclude each other, and no two of them fit an advertisement of at most
`limit` bytes. -/
def Exclusive (catalog : Catalog) (limit : Nat) : Prop :=
  catalog.entries.Pairwise fun entry other =>
    entry.layout.excludes other.layout = true ∧ limit < entry.layout.span + other.layout.span

theorem Entry.isSome_decode {entry : Entry} {advertisement : List UInt8} :
    (entry.decode advertisement).isSome = (entry.layout.decode advertisement).isSome :=
  Option.isSome_map

theorem length_claimants (catalog : Catalog) (advertisement : List UInt8) :
    (catalog.claimants advertisement).length =
      catalog.entries.countP fun entry => (entry.decode advertisement).isSome := by
  rw [claimants, List.length_map, List.countP_eq_length_filter]

theorem wellFormed_of_mem {definitions : List Definition} {catalog : Catalog}
    (built : ofDefinitions definitions = .ok catalog) {entry : Entry}
    (member : entry ∈ catalog.entries) : entry.layout.WellFormed := by
  obtain ⟨text, parsed⟩ := parse_of_mem built member
  exact Layout.wellFormed_of_parse parsed

/-- Recompiling definitions in another order gives the same entries in another order. -/
theorem exists_ofDefinitions_of_perm {definitions others : List Definition} {catalog : Catalog}
    (built : ofDefinitions definitions = .ok catalog) (perm : others.Perm definitions) :
    ∃ other, ofDefinitions others = .ok other ∧ other.entries.Perm catalog.entries := by
  obtain ⟨entries, compiled, ⟨⟩⟩ := bind_eq_ok_iff.1 built
  obtain ⟨pairs, room⟩ := compileAll_eq_ok_iff.1 compiled
  obtain ⟨reordered, otherPairs, same⟩ := List.perm_comp_forall₂ perm pairs
  have recompiled := compileAll_eq_ok_iff.2 ⟨otherPairs, perm.length_eq.trans_le room⟩
  exact ⟨⟨reordered⟩, bind_eq_ok_iff.2 ⟨reordered, recompiled, rfl⟩, same⟩

variable {definitions : List Definition} {catalog : Catalog}
  (built : ofDefinitions definitions = .ok catalog) {limit : Nat}
  (exclusive : catalog.Exclusive limit)

include built exclusive

/-- No structure is accepted by two entries. -/
theorem Exclusive.countP_readStructure_le_one (element : AdStructure) :
    (catalog.entries.countP fun entry => (entry.layout.readStructure element).isSome) ≤ 1 := by
  refine countP_le_one_of_pairwise (exclusive.imp_of_mem ?_)
  rintro entry other member otherMember ⟨apart, _⟩ ⟨read, otherRead⟩
  have accepted := (Layout.isSome_readStructure_iff (wellFormed_of_mem built member)).1 read
  have otherAccepted :=
    (Layout.isSome_readStructure_iff (wellFormed_of_mem built otherMember)).1 otherRead
  exact accepted.not_of_excludes apart otherAccepted

/-- No advertisement within the limit is decoded by two entries. -/
theorem Exclusive.countP_decode_le_one {advertisement : List UInt8}
    (short : advertisement.length ≤ limit) :
    (catalog.entries.countP fun entry => (entry.decode advertisement).isSome) ≤ 1 := by
  refine countP_le_one_of_pairwise (exclusive.imp_of_mem ?_)
  rintro entry other member otherMember ⟨apart, long⟩ ⟨decoded, otherDecoded⟩
  rw [Entry.isSome_decode] at decoded otherDecoded
  have fits := Layout.span_add_span_le (wellFormed_of_mem built member)
    (wellFormed_of_mem built otherMember) apart decoded otherDecoded
  omega

end Catalog

end BleBeacon
