import BleBeacon.Layout.WellFormed
import BleBeacon.Proofs.Layout.Compiling

/-!
# Compiled layouts are within bounds

The bounds of a layout are bounds of its fields and of their number. A spelling of a field states the
bounds of that field, so every layout compiled from a text is well formed.
-/

namespace BleBeacon

namespace Field

/-- The bounds of a single field. -/
def WellFormed : Field → Prop
  | matcher part => part.range.Within Layout.maxMatcherWidth ∧
      part.range.littleEndian = false ∧ part.expected.toNat < 256 ^ part.range.width
  | service part => part.range.Within part.uuid.width ∧
      part.range.littleEndian = false ∧ part.range.width = part.uuid.width
  | identifier part => part.Within Layout.maxIdentifierWidth
  | data part => part.Within Layout.maxDataWidth
  | power part => part.range.Within Layout.maxPowerWidth ∧ part.range.littleEndian = false

end Field

theorem ByteRange.Spelling.within {text : List Char} {range : ByteRange}
    (spelled : ByteRange.Spelling text range) {limit : Nat} (narrow : range.width ≤ limit) :
    range.Within limit := by
  cases spelled with
  | bigEndian _ _ ordered inside => exact ⟨ordered, inside, narrow⟩
  | littleEndian _ _ ordered inside => exact ⟨ordered, inside, narrow⟩

theorem Field.Spelling.wellFormed {text : List Char} {field : Field}
    (spelled : Field.Spelling text field) : field.WellFormed := by
  cases spelled with
  | @matcher _ _ matcher bytes range bigEndian narrow _ width expected =>
      have fits := Bytes.value_lt bytes
      rw [width, ← expected] at fits
      exact ⟨range.within narrow, bigEndian, fits⟩
  | service range bigEndian width _ =>
      rw [ServiceUuid.length_onAir] at width
      exact ⟨range.within width.le, bigEndian, width⟩
  | identifier range narrow => exact range.within narrow
  | data range narrow => exact range.within narrow
  | power range bigEndian narrow => exact ⟨range.within narrow, bigEndian⟩
  | pinned range bigEndian narrow _ => exact ⟨range.within narrow, bigEndian⟩

namespace Layout

theorem fields_eq_nil_iff {layout : Layout} : layout.fields = [] ↔ layout = empty := by
  constructor
  · intro none
    rw [← foldl_insert_fields layout, none]
    rfl
  · rintro rfl
    rfl

theorem mem_fields_iff {layout : Layout} {field : Field} :
    field ∈ layout.fields ↔ field ∈ layout.fieldsOf field.kind := by
  rw [← filter_fields, List.mem_filter]
  simp

/-- A property of all fields is a property of each kind of part. -/
theorem forall_mem_fields_iff {layout : Layout} {property : Field → Prop} :
    (∀ field ∈ layout.fields, property field) ↔
      (∀ part ∈ layout.matcher, property (.matcher part)) ∧
      (∀ part ∈ layout.service, property (.service part)) ∧
      (∀ part ∈ layout.identifiers, property (.identifier part)) ∧
      (∀ part ∈ layout.dataFields, property (.data part)) ∧
      ∀ part ∈ layout.power, property (.power part) := by
  simp only [fields, List.forall_mem_append, List.forall_mem_map, Option.mem_toList, Option.mem_def,
    and_assoc]

/-- A layout is within bounds exactly if it has fields, each of them is, and so is their number. -/
theorem wellFormed_iff {layout : Layout} :
    layout.WellFormed ↔
      layout.fields ≠ [] ∧ (∀ field ∈ layout.fields, field.WellFormed) ∧ layout.Fits := by
  rw [Ne, fields_eq_nil_iff, forall_mem_fields_iff]
  constructor
  · intro bounds
    refine ⟨bounds.nonempty, ⟨bounds.matcher, bounds.service, bounds.identifiers,
      bounds.dataFields, bounds.power⟩, ?_⟩
    intro kind
    cases kind with
    | identifier => exact bounds.identifiers_le
    | data => exact bounds.dataFields_le
    | matcher | service | power => exact Option.length_toList_le
  · rintro ⟨nonempty, ⟨matcher, service, identifiers, dataFields, power⟩, fits⟩
    exact ⟨nonempty, matcher, service, identifiers, fits .identifier, dataFields, fits .data, power⟩

/-- Every layout compiled from a text is well formed. -/
theorem wellFormed_of_parse {text : List Char} {layout : Layout}
    (parsed : parse text = .ok layout) : layout.WellFormed := by
  obtain ⟨nonempty, fits, fields, spelled, each⟩ := parse_eq_ok_iff.1 parsed
  have same : ∀ field, field ∈ layout.fields ↔ field ∈ fields := by
    intro field
    rw [mem_fields_iff, each field.kind, List.mem_filter]
    simp
  refine wellFormed_iff.2 ⟨?_, ?_, fits⟩
  · intro none
    have absent : fields = [] :=
      List.eq_nil_iff_forall_not_mem.2 fun field member => by
        simpa [none] using (same field).2 member
    rw [absent, List.forall₂_nil_right_iff] at spelled
    exact nonempty spelled
  · intro field member
    obtain ⟨token, spells⟩ := exists_forall₂_iff.1 ⟨_, spelled.flip⟩ field ((same field).1 member)
    exact spells.wellFormed

end Layout

end BleBeacon
