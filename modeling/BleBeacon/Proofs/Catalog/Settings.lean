import BleBeacon.Catalog.Basic
import Mathlib.Data.List.DropRight

/-!
# Settings after changes

The last change wins. After any changes the threshold is the one that was assigned last, and a format
is enabled as it was switched last, where a reset makes all earlier changes count for nothing. A
format shares its bits with the others and the settings with the threshold, so each change has to
leave the rest alone. A catalog under settings finds what the catalog of its enabled entries finds.
-/

namespace BleBeacon

namespace Settings

/-! ## What changes leave -/

namespace Change

/-- The threshold that a change assigns. -/
def threshold? : Change → Option Int8
  | minRssi threshold => some threshold
  | reset | enable _ _ => none

/-- How a change switches a format. -/
def switch? (format : BeaconFormat) : Change → Option Bool
  | enable switched on => if switched = format then some on else none
  | reset | minRssi _ => none

end Change

/-- The changes behind the last reset, or all of them without a reset. -/
def sinceReset (changes : List Change) : List Change :=
  changes.rtakeWhile (· != .reset)

/-- What was written last since the last reset, where `read` tells what a change writes. -/
def lastWritten {α : Type} (read : Change → Option α) (initial : α) (changes : List Change) : α :=
  ((sinceReset changes).filterMap read).getLast?.getD initial

/-- The threshold that was assigned last. -/
def lastThreshold (changes : List Change) : Int8 :=
  lastWritten Change.threshold? (-100) changes

/-- Whether a format was switched on last, or was never switched. -/
def lastSwitch (changes : List Change) (format : BeaconFormat) : Bool :=
  lastWritten (Change.switch? format) true changes

theorem lastWritten_concat {α : Type} (read : Change → Option α) (initial : α)
    (changes : List Change) (change : Change) :
    lastWritten read initial (changes ++ [change]) =
      if change = .reset then initial
      else (read change).getD (lastWritten read initial changes) := by
  rw [lastWritten, sinceReset, List.rtakeWhile_concat]
  by_cases reset : change = .reset
  · simp [reset]
  · rw [if_pos (bne_iff_ne.2 reset), if_neg reset, List.filterMap_append, lastWritten, sinceReset]
    cases found : read change with
    | none => simp [found]
    | some value => simp [found]

/-! ## One change -/

/-- Switching a format leaves the threshold alone. -/
theorem minRssi_apply (settings : Settings) (change : Change) :
    (settings.apply change).minRssi =
      if change = .reset then -100 else change.threshold?.getD settings.minRssi := by
  cases change with
  | reset => rfl
  | enable format on => cases on <;> rfl
  | minRssi threshold => rfl

/-- Switching a format leaves the other formats alone, and so does assigning the threshold. -/
theorem isEnabled_apply (settings : Settings) (change : Change) (format : BeaconFormat) :
    (settings.apply change).isEnabled format =
      if change = .reset then true
      else (change.switch? format).getD (settings.isEnabled format) := by
  cases change with
  | reset => exact FormatSet.contains_full format
  | minRssi threshold => rfl
  | enable switched on =>
      by_cases same : switched = format
      · cases on <;> simp [apply, isEnabled, Change.switch?, same]
      · cases on <;> simp [apply, isEnabled, Change.switch?, same, Ne.symm same]

/-! ## A run of changes -/

theorem run_concat (settings : Settings) (changes : List Change) (change : Change) :
    settings.run (changes ++ [change]) = (settings.run changes).apply change := by
  rw [run, List.foldl_concat]
  rfl

/-- What each change either writes, or resets, or leaves alone is what was written last. -/
theorem view_run_eq_lastWritten {α : Type} (view : Settings → α) {read : Change → Option α}
    (step : ∀ settings change, view (settings.apply change) =
      if change = .reset then view {} else (read change).getD (view settings))
    (changes : List Change) : view (run {} changes) = lastWritten read (view {}) changes := by
  induction changes using List.reverseRecOn with
  | nil => rfl
  | append_singleton changes change ih => rw [run_concat, step, ih, lastWritten_concat]

theorem minRssi_run (changes : List Change) :
    (run {} changes).minRssi = lastThreshold changes :=
  view_run_eq_lastWritten minRssi minRssi_apply changes

theorem isEnabled_run (changes : List Change) (format : BeaconFormat) :
    (run {} changes).isEnabled format = lastSwitch changes format := by
  have start : isEnabled {} format = true := FormatSet.contains_full format
  rw [lastSwitch, ← start]
  refine view_run_eq_lastWritten (isEnabled · format) (fun settings change => ?_) changes
  rw [isEnabled_apply, start]

end Settings

namespace Catalog

/-- Skipping entries during the search is searching the restricted catalog. -/
theorem sighting?_eq_decode_restrict (catalog : Catalog) (settings : Settings)
    (advertisement : List UInt8) (rssi : Int8) :
    catalog.sighting? settings advertisement rssi =
      if rssi < settings.minRssi then none
      else (catalog.restrict settings).decode advertisement := by
  obtain ⟨entries⟩ := catalog
  rw [sighting?, restrict, decode]
  congr 1
  induction entries with
  | nil => rfl
  | cons entry entries ih =>
      rw [List.findSome?_cons, List.filter_cons, ih]
      cases settings.isEnabled entry.format <;> rfl

/-- A sighting is that of the first entry that decodes the advertisement. -/
theorem decode_eq_some_iff {catalog : Catalog} {advertisement : List UInt8} {sighting : Sighting} :
    catalog.decode advertisement = some sighting ↔ ∃ before entry after,
      catalog.entries = before ++ entry :: after ∧
      (∀ earlier ∈ before, earlier.layout.decode advertisement = none) ∧
      entry.format = sighting.format ∧
      entry.layout.decode advertisement = some sighting.reading := by
  obtain ⟨format, reading⟩ := sighting
  simp only [decode, Entry.decode, List.findSome?_eq_some_iff, Option.map_eq_some_iff,
    Option.map_eq_none_iff, Sighting.mk.injEq]
  constructor
  · rintro ⟨before, entry, after, whole, ⟨_, read, rfl, rfl⟩, skipped⟩
    exact ⟨before, entry, after, whole, skipped, rfl, read⟩
  · rintro ⟨before, entry, after, whole, skipped, rfl, read⟩
    exact ⟨before, entry, after, whole, ⟨_, read, rfl, rfl⟩, skipped⟩

/-- After any changes of the initial settings, an advertisement is ignored if it is weaker than the
threshold that was assigned last. Otherwise it is decoded by the catalog of the entries whose format
was not switched off last, that is by the first of them that can. -/
theorem sighting_after_changes (catalog : Catalog) (changes : List Settings.Change)
    (advertisement : List UInt8) (rssi : Int8) :
    catalog.sighting? (Settings.run {} changes) advertisement rssi =
      (if rssi < Settings.lastThreshold changes then none
      else Catalog.decode
        ⟨catalog.entries.filter fun entry => Settings.lastSwitch changes entry.format⟩
        advertisement) ∧
    ∀ sighting,
      catalog.sighting? (Settings.run {} changes) advertisement rssi = some sighting ↔
        Settings.lastThreshold changes ≤ rssi ∧ ∃ before entry after,
          (catalog.entries.filter fun entry => Settings.lastSwitch changes entry.format) =
            before ++ entry :: after ∧
          (∀ earlier ∈ before, earlier.layout.decode advertisement = none) ∧
          entry.format = sighting.format ∧
          entry.layout.decode advertisement = some sighting.reading := by
  have searched : catalog.sighting? (Settings.run {} changes) advertisement rssi =
      if rssi < Settings.lastThreshold changes then none
      else Catalog.decode
        ⟨catalog.entries.filter fun entry => Settings.lastSwitch changes entry.format⟩
        advertisement := by
    simp only [sighting?_eq_decode_restrict, restrict, Settings.minRssi_run,
      Settings.isEnabled_run]
  refine ⟨searched, fun sighting => ?_⟩
  rw [searched, Option.ite_none_left_eq_some, Int8.not_lt, decode_eq_some_iff]

end Catalog

end BleBeacon
