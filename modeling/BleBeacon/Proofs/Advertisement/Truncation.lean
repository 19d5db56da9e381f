import BleBeacon.Filter.Basic
import BleBeacon.Proofs.Advertisement.Encoding
import BleBeacon.Reading

/-!
# Truncated advertisements

Wherever an advertisement is cut off, the structures that are left are the first ones of the whole
advertisement: a structure that the cut goes through is lost, and no other one changes. So a reading
of the part is the reading of the whole, because no later structure comes before the one that was
read, and a filter that lets the part through lets the whole through.
-/

namespace BleBeacon

namespace Advertisement

/-- More bytes add structures behind those that are there. -/
theorem structures_isPrefix_append (bytes more : List UInt8) :
    structures bytes <+: structures (bytes ++ more) := by
  induction bytes using structures.induct with
  | case1 bytes stop =>
      have ends := next_eq_none_iff.1 (next_of_none (Prod.ext stop rfl))
      rw [structures_of_ends ends]
      exact List.nil_prefix
  | case2 bytes found step ih =>
      obtain ⟨whole, short⟩ := next_eq_some_iff.1 (Prod.ext step rfl)
      have extended : next (bytes ++ more) = (some found, (next bytes).2 ++ more) := by
        apply next_eq_some_iff.2
        constructor
        · rw [← List.append_assoc, ← whole]
        · exact short
      rw [structures_of_next (Prod.ext step rfl), structures_of_next extended]
      exact List.cons_prefix_cons.2 ⟨rfl, ih⟩

/-- What is left of a cut advertisement begins its structures. -/
theorem structures_take_isPrefix (bytes : List UInt8) (length : Nat) :
    structures (bytes.take length) <+: structures bytes := by
  have extended := structures_isPrefix_append (bytes.take length) (bytes.drop length)
  rwa [List.take_append_drop] at extended

end Advertisement

namespace Layout

/-- A reading of the first bytes is the reading of all of them. -/
theorem decode_of_decode_take {layout : Layout} {advertisement : List UInt8} {length : Nat}
    {reading : Reading} (decoded : layout.decode (advertisement.take length) = some reading) :
    layout.decode advertisement = some reading :=
  (Advertisement.structures_take_isPrefix advertisement length).findSome?_eq_some decoded

end Layout

namespace ScanFilter

/-- A filter that lets the first bytes through lets all of them through. -/
theorem accepts_of_accepts_take {filter : ScanFilter} {advertisement : List UInt8} {length : Nat}
    (accepted : filter.accepts (advertisement.take length) = true) :
    filter.accepts advertisement = true := by
  rw [accepts, List.any_eq_true] at accepted ⊢
  obtain ⟨element, member, matched⟩ := accepted
  have whole := Advertisement.structures_take_isPrefix advertisement length
  exact ⟨element, whole.subset member, matched⟩

end ScanFilter

namespace Advertisement

/-- Truncation loses data and never changes it. From the first bytes of an advertisement a layout
reads what it reads from the whole, or nothing, and a filter that lets them through lets the whole
through. -/
theorem truncation_only_loses (advertisement : List UInt8) (length : Nat) :
    (∀ layout : Layout, layout.decode (advertisement.take length) = none ∨
      layout.decode (advertisement.take length) = layout.decode advertisement) ∧
    ∀ filter : ScanFilter, filter.accepts (advertisement.take length) = true →
      filter.accepts advertisement = true := by
  constructor
  · intro layout
    cases decoded : layout.decode (advertisement.take length) with
    | none => exact .inl rfl
    | some reading => exact .inr (Layout.decode_of_decode_take decoded).symm
  · intro filter
    exact ScanFilter.accepts_of_accepts_take

/-- The cut goes through the third structure, and the filter lets the second one through. -/
theorem truncation_only_loses_last :
    ScanFilter.accepts ⟨.manufacturer 0x4C, [2], [0xFF], 2⟩
        ([2, 1, 6, 4, 0xFF, 0x4C, 0, 2, 4, 0xFF, 0x4C, 0, 3].take 10) = true ∧
      ScanFilter.accepts ⟨.manufacturer 0x4C, [2], [0xFF], 2⟩
        [2, 1, 6, 4, 0xFF, 0x4C, 0, 2, 4, 0xFF, 0x4C, 0, 3] = true := by
  have accepted : ScanFilter.accepts ⟨.manufacturer 0x4C, [2], [0xFF], 2⟩
      ([2, 1, 6, 4, 0xFF, 0x4C, 0, 2, 4, 0xFF, 0x4C, 0, 3].take 10) = true := by
    have walked : structures ([2, 1, 6, 4, 0xFF, 0x4C, 0, 2, 4, 0xFF, 0x4C, 0, 3].take 10) =
        [⟨1, [6]⟩, ⟨0xFF, [0x4C, 0, 2]⟩] := by
      simp [structures, next]
    rw [ScanFilter.accepts, walked]
    decide
  exact ⟨accepted, (truncation_only_loses _ 10).2 _ accepted⟩

end Advertisement

end BleBeacon
