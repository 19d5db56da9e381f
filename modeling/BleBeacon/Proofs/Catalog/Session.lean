import BleBeacon.Proofs.Catalog

/-!
# Filters of a session, entry by entry

The filters of a session are those of its enabled entries one after the other, and the first entry that
fails decides the error: it has too many known prefixes, or its layout has no filters, or there is no
room left for them. Nothing but the enabled entries and the prefixes of their formats has a part in it.
-/

namespace BleBeacon.Catalog

/-! ## One entry -/

/-- The bytes of the known prefixes of a format, in the order in which they are listed. -/
def bytesSeen (known : List KnownPrefix) (format : BeaconFormat) : List (List UInt8) :=
  known.filterMap fun seen => if seen.format = format then some seen.bytes else none

theorem prefixesOf_eq_bytesSeen (known : List KnownPrefix) (format : BeaconFormat) :
    prefixesOf known format = bytesSeen known format := by
  rw [prefixesOf, ← List.filterMap_eq_map, List.filterMap_filter]
  simp only [beq_iff_eq, Function.comp_apply, bytesSeen]

/-- An entry has filters: there are at most eight known prefixes of its format, and its layout makes
filters with them. -/
structure Entry.Makes (known : List KnownPrefix) (entry : Entry) (part : List ScanFilter) : Prop where
  prefixes : (bytesSeen known entry.format).length ≤ 8
  layout : entry.layout.scanFilters entry.manufacturerIds (bytesSeen known entry.format) = .ok part

/-- Why a session fails at an entry, when some of its sixteen filters are used by earlier entries. -/
inductive Entry.Fails (known : List KnownPrefix) (used : Nat) (entry : Entry) : FilterError → Prop
  | tooManyPrefixes : 8 < (bytesSeen known entry.format).length →
      Fails known used entry .tooManyPrefixes
  | layout {error : FilterError} : (bytesSeen known entry.format).length ≤ 8 →
      entry.layout.scanFilters entry.manufacturerIds (bytesSeen known entry.format) =
        .error error →
      Fails known used entry error
  | tooManyFilters {part : List ScanFilter} : entry.Makes known part → 16 < used + part.length →
      Fails known used entry .tooManyFilters

/-- The filters of an entry, with the known prefixes of its format. -/
theorem Entry.scanFilters_eq (entry : Entry) (known : List KnownPrefix) :
    entry.scanFilters known =
      if 8 < (bytesSeen known entry.format).length then .error .tooManyPrefixes
      else entry.layout.scanFilters entry.manufacturerIds (bytesSeen known entry.format) := by
  rw [← prefixesOf_eq_bytesSeen]
  rfl

theorem Entry.scanFilters_eq_ok_iff {known : List KnownPrefix} {entry : Entry}
    {part : List ScanFilter} : entry.scanFilters known = .ok part ↔ entry.Makes known part := by
  rw [Entry.scanFilters_eq]
  split
  · rename_i many
    exact iff_of_false nofun fun makes => absurd makes.prefixes (Nat.not_le.2 many)
  · rename_i few
    exact ⟨fun made => ⟨Nat.not_lt.1 few, made⟩, fun makes => makes.layout⟩

/-- An entry fails by itself, or its filters are too many for what is left. -/
theorem Entry.fails_iff {known : List KnownPrefix} {used : Nat} {entry : Entry}
    {error : FilterError} : entry.Fails known used error ↔
      entry.scanFilters known = .error error ∨
        ∃ part, entry.Makes known part ∧ 16 < used + part.length ∧ error = .tooManyFilters := by
  rw [Entry.scanFilters_eq]
  constructor
  · intro fails
    cases fails with
    | tooManyPrefixes many => exact .inl (if_pos many)
    | layout few failed => exact .inl ((if_neg (Nat.not_lt.2 few)).trans failed)
    | tooManyFilters makes full => exact .inr ⟨_, makes, full, rfl⟩
  · rintro (failed | ⟨part, makes, full, rfl⟩)
    · split at failed
      · rename_i many
        cases failed
        exact .tooManyPrefixes many
      · rename_i few
        exact .layout (Nat.not_lt.1 few) failed
    · exact .tooManyFilters makes full

/-! ## Entries in order -/

/-- The first entry fails, or there is room for its filters and the entries behind it fail. -/
theorem joinFilters_cons_eq_error_iff {known : List KnownPrefix} {used : Nat} (room : used ≤ 16)
    {entry : Entry} {entries : List Entry} {error : FilterError} :
    joinFilters known (16 - used) (entry :: entries) = .error error ↔
      entry.Fails known used error ∨ ∃ part, entry.Makes known part ∧ used + part.length ≤ 16 ∧
        joinFilters known (16 - (used + part.length)) entries = .error error := by
  rw [Entry.fails_iff]
  simp only [← Entry.scanFilters_eq_ok_iff]
  cases own : entry.scanFilters known with
  | error fault => simp [joinFilters, own, bind, Except.bind]
  | ok part =>
      by_cases full : 16 < used + part.length
      · have overflow : 16 - used < part.length := by omega
        simp [joinFilters, own, bind, Except.bind, overflow, full, Nat.not_le.2 full, eq_comm]
      · have fits : ¬16 - used < part.length := by omega
        have left : 16 - used - part.length = 16 - (used + part.length) := by omega
        cases behind : joinFilters known (16 - (used + part.length)) entries <;>
          simp [joinFilters, own, bind, Except.bind, fits, left, behind, full, Nat.not_lt.1 full,
            pure, Except.pure]

/-- Joining fails exactly at the first entry that fails. -/
theorem joinFilters_eq_error_iff {known : List KnownPrefix} {used : Nat} (room : used ≤ 16)
    {entries : List Entry} {error : FilterError} :
    joinFilters known (16 - used) entries = .error error ↔ ∃ before entry after parts,
      entries = before ++ entry :: after ∧ List.Forall₂ (Entry.Makes known) before parts ∧
        used + parts.flatten.length ≤ 16 ∧
        entry.Fails known (used + parts.flatten.length) error := by
  induction entries generalizing used with
  | nil => simp [joinFilters]
  | cons first entries ih =>
      rw [joinFilters_cons_eq_error_iff room]
      constructor
      · rintro (fails | ⟨part, makes, fits, behind⟩)
        · exact ⟨[], first, entries, [], rfl, .nil, room, fails⟩
        · obtain ⟨before, entry, after, parts, rfl, pairs, short, fails⟩ := (ih fits).1 behind
          refine ⟨first :: before, entry, after, part :: parts, rfl, .cons makes pairs, ?_, ?_⟩
          · simpa [Nat.add_assoc] using short
          · simpa [Nat.add_assoc] using fails
      · rintro ⟨before, entry, after, parts, whole, pairs, short, fails⟩
        cases pairs with
        | nil =>
            obtain ⟨rfl, rfl⟩ := List.cons.inj whole
            exact .inl fails
        | @cons _ part before parts makes pairs =>
            obtain ⟨rfl, rfl⟩ := List.cons.inj whole
            rw [List.flatten_cons, List.length_append, ← Nat.add_assoc] at short fails
            have fits : used + part.length ≤ 16 := by omega
            exact .inr ⟨part, makes, fits,
              (ih fits).2 ⟨before, entry, after, parts, rfl, pairs, short, fails⟩⟩

/-- Of the known prefixes only those of the entries' formats count. -/
theorem joinFilters_congr {known other : List KnownPrefix} {room : Nat} {entries : List Entry}
    (same : ∀ entry ∈ entries, bytesSeen known entry.format = bytesSeen other entry.format) :
    joinFilters known room entries = joinFilters other room entries := by
  induction entries generalizing room with
  | nil => rfl
  | cons entry entries ih =>
      obtain ⟨head, rest⟩ := List.forall_mem_cons.1 same
      have own : entry.scanFilters known = entry.scanFilters other := by
        rw [Entry.scanFilters_eq, Entry.scanFilters_eq, head]
      simp only [joinFilters, own, ih rest]

/-! ## A session -/

/-- The filters of a session are those of its enabled entries, joined in catalog order, at most
sixteen; otherwise the first entry that fails decides the error. Disabled entries have no part in the
outcome, and neither have known prefixes of formats that no enabled entry stands for. -/
theorem scanFilters_entry_by_entry (catalog : Catalog) (settings : Settings)
    (known : List KnownPrefix) :
    (∀ filters, catalog.scanFilters settings known = .ok filters ↔ ∃ parts,
      List.Forall₂ (Entry.Makes known)
        (catalog.entries.filter fun entry => settings.isEnabled entry.format) parts ∧
      parts.flatten.length ≤ 16 ∧ filters = parts.flatten) ∧
    (∀ error, catalog.scanFilters settings known = .error error ↔ ∃ before entry after parts,
      (catalog.entries.filter fun entry => settings.isEnabled entry.format) =
        before ++ entry :: after ∧
      List.Forall₂ (Entry.Makes known) before parts ∧ parts.flatten.length ≤ 16 ∧
      entry.Fails known parts.flatten.length error) ∧
    ∀ (other : Catalog) (otherSettings : Settings) (otherKnown : List KnownPrefix),
      (catalog.entries.filter fun entry => settings.isEnabled entry.format) =
        (other.entries.filter fun entry => otherSettings.isEnabled entry.format) →
      (∀ entry ∈ catalog.entries, settings.isEnabled entry.format = true →
        bytesSeen known entry.format = bytesSeen otherKnown entry.format) →
      catalog.scanFilters settings known = other.scanFilters otherSettings otherKnown := by
  refine ⟨fun filters => ?_, fun error => ?_, fun other otherSettings otherKnown enabled same => ?_⟩
  · rw [scanFilters, joinFilters_eq_ok_iff]
    simp only [Entry.scanFilters_eq_ok_iff]
    constructor
    · rintro ⟨parts, pairs, rfl, short⟩
      exact ⟨parts, pairs, short, rfl⟩
    · rintro ⟨parts, pairs, short, rfl⟩
      exact ⟨parts, pairs, rfl, short⟩
  · have failure := @joinFilters_eq_error_iff known 0 (Nat.zero_le _)
      (catalog.restrict settings).entries error
    simp only [Nat.zero_add, Nat.sub_zero] at failure
    exact failure
  · have entries : (other.restrict otherSettings).entries = (catalog.restrict settings).entries :=
      enabled.symm
    rw [scanFilters, scanFilters, entries]
    apply joinFilters_congr
    intro entry member
    obtain ⟨held, on⟩ := List.mem_filter.1 member
    exact same entry held on

/-- A catalog of three formats. -/
def threeFormats : Catalog :=
  ⟨[⟨.iBeacon, { matcher := some ⟨⟨2, 3, false⟩, 0x0215⟩, identifiers := [⟨4, 5, false⟩] },
      [0x004C]⟩,
    ⟨.altBeacon, { identifiers := [⟨2, 3, false⟩] }, [0x0118]⟩,
    ⟨.eddystoneUid,
      { service := some ⟨.assigned 0xFEAA, ⟨0, 1, false⟩⟩, identifiers := [⟨2, 5, false⟩] }, []⟩]⟩

/-- Each enabled entry gets the prefixes of its format out of a mixed list. Nine prefixes of a format
count only if it is enabled, and then they are refused. -/
theorem scanFilters_entry_by_entry_mixed :
    threeFormats.scanFilters (Settings.apply {} (.enable .altBeacon false))
        ([⟨.iBeacon, [0xAB]⟩, ⟨.eddystoneUid, [0x01, 0x02]⟩, ⟨.iBeacon, [0xCD]⟩] ++
          List.replicate 9 ⟨.altBeacon, [0xEE]⟩) =
      .ok [⟨.manufacturer 0x004C, [0, 0, 2, 0x15, 0xAB], [0, 0, 0xFF, 0xFF, 0xFF], 0⟩,
        ⟨.manufacturer 0x004C, [0, 0, 2, 0x15, 0xCD], [0, 0, 0xFF, 0xFF, 0xFF], 0⟩,
        ⟨.service (.assigned 0xFEAA), [0x01, 0x02], [0xFF, 0xFF], 2⟩] ∧
    threeFormats.scanFilters {}
        (⟨.iBeacon, [0xAB]⟩ :: List.replicate 9 ⟨.altBeacon, [0xEE]⟩) =
      .error .tooManyPrefixes := by
  constructor
  · refine ((scanFilters_entry_by_entry _ _ _).1 _).2
      ⟨[[⟨.manufacturer 0x004C, [0, 0, 2, 0x15, 0xAB], [0, 0, 0xFF, 0xFF, 0xFF], 0⟩,
          ⟨.manufacturer 0x004C, [0, 0, 2, 0x15, 0xCD], [0, 0, 0xFF, 0xFF, 0xFF], 0⟩],
        [⟨.service (.assigned 0xFEAA), [0x01, 0x02], [0xFF, 0xFF], 2⟩]], ?_, by decide, rfl⟩
    exact .cons ⟨by decide, rfl⟩ (.cons ⟨by decide, rfl⟩ .nil)
  · refine ((scanFilters_entry_by_entry _ _ _).2.1 _).2 ⟨[_], _, [_],
      [[⟨.manufacturer 0x004C, [0, 0, 2, 0x15, 0xAB], [0, 0, 0xFF, 0xFF, 0xFF], 0⟩]], rfl,
      .cons ⟨by decide, rfl⟩ .nil, by decide, ?_⟩
    exact .tooManyPrefixes (by decide)

end BleBeacon.Catalog
