import BleBeacon.Catalog.Filters
import BleBeacon.Proofs.Except
import BleBeacon.Proofs.Pairing

/-!
# Catalogs and their filters are made entry by entry

Compiling a catalog pairs each definition with an entry, and making the filters of a session pairs
each enabled entry with its own filters, in order. Both succeed exactly if every single one does and
all of them fit.
-/

namespace BleBeacon.Catalog

/-- An entry is compiled from a definition. -/
structure Entry.CompiledFrom (definition : Definition) (entry : Entry) : Prop where
  layout : Layout.compile definition.layout = .ok entry.layout
  format : entry.format = definition.format
  manufacturerIds : entry.manufacturerIds = definition.manufacturerIds

theorem compileAll_eq_ok_iff {room : Nat} {definitions : List Definition} {entries : List Entry} :
    compileAll room definitions = .ok entries ↔
      List.Forall₂ Entry.CompiledFrom definitions entries ∧ definitions.length ≤ room := by
  induction definitions generalizing room entries with
  | nil =>
      rw [compileAll, Except.ok.injEq, List.forall₂_nil_left_iff, eq_comm]
      simp
  | cons definition definitions ih =>
      unfold compileAll
      rw [List.forall₂_cons_left_iff]
      cases compiled : Layout.compile definition.layout with
      | error error =>
          constructor
          · exact nofun
          · rintro ⟨⟨entry, rest, head, _⟩, _⟩
            exact absurd (compiled.symm.trans head.layout) nofun
      | ok layout =>
          cases room with
          | zero => exact ⟨nofun, fun ⟨_, room⟩ => absurd room (by simp)⟩
          | succ room =>
              simp only [bind_eq_ok_iff, ih]
              constructor
              · rintro ⟨rest, ⟨pairs, short⟩, ⟨⟩⟩
                exact ⟨⟨_, rest, ⟨compiled, rfl, rfl⟩, pairs, rfl⟩, Nat.succ_le_succ short⟩
              · rintro ⟨⟨⟨format, other, ids⟩, rest, head, pairs, rfl⟩, short⟩
                refine ⟨rest, ⟨pairs, Nat.le_of_succ_le_succ short⟩, ?_⟩
                obtain ⟨same, rfl, rfl⟩ := head
                cases compiled.symm.trans same
                rfl

/-- Every layout of a catalog is compiled from a text. -/
theorem parse_of_mem {definitions : List Definition} {catalog : Catalog}
    (built : ofDefinitions definitions = .ok catalog) {entry : Entry}
    (member : entry ∈ catalog.entries) : ∃ text, Layout.parse text = .ok entry.layout := by
  obtain ⟨entries, compiled, ⟨⟩⟩ := bind_eq_ok_iff.1 built
  have pairs := (compileAll_eq_ok_iff.1 compiled).1
  obtain ⟨definition, source⟩ := exists_forall₂_iff.1 ⟨_, pairs.flip⟩ entry member
  exact ⟨definition.layout.toList, source.layout⟩

theorem mem_prefixesOf_iff {known : List KnownPrefix} {format : BeaconFormat}
    {bytes : List UInt8} :
    bytes ∈ prefixesOf known format ↔
      ∃ knownPrefix ∈ known, knownPrefix.format = format ∧ knownPrefix.bytes = bytes := by
  simp [prefixesOf, and_assoc]

/-- Filters are joined exactly if every entry has filters and all of them have room. -/
theorem joinFilters_eq_ok_iff {known : List KnownPrefix} {room : Nat} {entries : List Entry}
    {filters : List ScanFilter} :
    joinFilters known room entries = .ok filters ↔ ∃ parts,
      List.Forall₂ (fun entry part => entry.scanFilters known = .ok part) entries parts ∧
        filters = parts.flatten ∧ filters.length ≤ room := by
  induction entries generalizing room filters with
  | nil =>
      simp only [joinFilters, Except.ok.injEq, List.forall₂_nil_left_iff, exists_eq_left,
        List.flatten_nil]
      constructor
      · rintro rfl
        exact ⟨rfl, Nat.zero_le _⟩
      · rintro ⟨rfl, _⟩
        rfl
  | cons entry entries ih =>
      rw [joinFilters, bind_eq_ok_iff]
      constructor
      · rintro ⟨part, own, joined⟩
        split at joined
        · cases joined
        · rename_i fits
          obtain ⟨rest, others, ⟨⟩⟩ := bind_eq_ok_iff.1 joined
          obtain ⟨parts, pairs, rfl, short⟩ := ih.1 others
          refine ⟨part :: parts, .cons own pairs, rfl, ?_⟩
          rw [List.length_append]
          omega
      · rintro ⟨_, pairs, rfl, short⟩
        obtain ⟨part, parts, own, others, rfl⟩ := List.forall₂_cons_left_iff.1 pairs
        rw [List.flatten_cons, List.length_append] at short
        refine ⟨part, own, ?_⟩
        rw [if_neg (by omega)]
        exact bind_eq_ok_iff.2 ⟨_, ih.2 ⟨parts, others, rfl, by omega⟩, rfl⟩

/-- The filters of an enabled entry are among those of the session. -/
theorem scanFilters_of_mem {catalog : Catalog} {settings : Settings} {known : List KnownPrefix}
    {filters : List ScanFilter} (made : catalog.scanFilters settings known = .ok filters)
    {entry : Entry} (member : entry ∈ catalog.entries)
    (enabled : settings.isEnabled entry.format = true) :
    ∃ part, entry.scanFilters known = .ok part ∧ ∀ filter ∈ part, filter ∈ filters := by
  obtain ⟨parts, pairs, rfl, _⟩ := joinFilters_eq_ok_iff.1 made
  have restricted : entry ∈ (catalog.restrict settings).entries :=
    List.mem_filter.2 ⟨member, enabled⟩
  obtain ⟨part, held, own⟩ := exists_mem_of_forall₂ pairs entry restricted
  exact ⟨part, own, fun filter inside => List.mem_flatten.2 ⟨part, held, inside⟩⟩

end BleBeacon.Catalog
