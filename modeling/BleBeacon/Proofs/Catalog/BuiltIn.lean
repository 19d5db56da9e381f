import BleBeacon.Catalog.BuiltIn
import BleBeacon.Proofs.Exclusion

/-!
# The built-in catalog

The built-in definitions compile to layouts that exclude each other: one of them reads Service Data,
and the matchers of the others want three different bytes at the third payload offset. The two
shortest formats take 49 bytes together, so a shorter advertisement has at most one claimant.
-/

namespace BleBeacon.Catalog

/-- The entries that the built-in definitions are compiled to. -/
def builtInEntries : List Entry :=
  [⟨.altBeacon,
      { matcher := some ⟨⟨2, 3, false⟩, 0xBEAC⟩
        identifiers := [⟨4, 19, false⟩, ⟨20, 21, false⟩, ⟨22, 23, false⟩]
        dataFields := [⟨25, 25, false⟩]
        power := some ⟨⟨24, 24, false⟩, none⟩ },
      [ManufacturerId.radius]⟩,
    ⟨.iBeacon,
      { matcher := some ⟨⟨2, 3, false⟩, 0x0215⟩
        identifiers := [⟨4, 19, false⟩, ⟨20, 21, false⟩, ⟨22, 23, false⟩]
        power := some ⟨⟨24, 24, false⟩, none⟩ },
      [ManufacturerId.apple]⟩,
    ⟨.eddystoneUid,
      { matcher := some ⟨⟨2, 2, false⟩, 0⟩
        service := some ⟨.assigned 0xFEAA, ⟨0, 1, false⟩⟩
        identifiers := [⟨4, 13, false⟩, ⟨14, 19, false⟩]
        power := some ⟨⟨3, 3, false⟩, some (-41)⟩ },
      []⟩,
    ⟨.ruuviTag,
      { matcher := some ⟨⟨0, 2, false⟩, 0x990405⟩
        identifiers := [⟨20, 25, false⟩] },
      [ManufacturerId.ruuvi]⟩]

theorem builtIn_eq_ok : builtIn = .ok ⟨builtInEntries⟩ := by
  rfl

/-- The shortest structures of two formats, of Eddystone and of iBeacon, take 49 bytes. -/
theorem exclusive_builtInEntries : Exclusive ⟨builtInEntries⟩ 48 := by
  unfold Exclusive
  decide

/-- The shortest structures of Eddystone and of iBeacon, one behind the other. -/
def twoFrames : List AdStructure :=
  [⟨AdType.serviceData16, [0xAA, 0xFE] ++ List.replicate 18 0⟩,
    ⟨AdType.manufacturerData, [0x4C, 0x00, 0x02, 0x15] ++ List.replicate 21 0⟩]

theorem claimants_twoFrames :
    (Catalog.mk builtInEntries).claimants (twoFrames.flatMap AdStructure.encode) =
      [.iBeacon, .eddystoneUid] := by
  have walked := @Advertisement.structures_flatMap_encode twoFrames (by decide)
  simp only [claimants, Entry.decode, Layout.decode, walked]
  decide

/-- No structure is accepted by two built-in layouts. So an advertisement of at most 48 bytes has at
most one claimant in the built-in catalog, and all orders of the built-in layouts decode the same
from it. With 49 bytes it can have two. -/
theorem builtIn_exclusive :
    ∃ catalog, builtIn = .ok catalog ∧
      (∀ element, (catalog.entries.countP fun entry =>
        (entry.layout.readStructure element).isSome) ≤ 1) ∧
      (∀ advertisement : List UInt8, advertisement.length ≤ 48 →
        (catalog.claimants advertisement).length ≤ 1 ∧
        ∀ definitions, definitions.Perm builtInDefinitions →
          ∃ other, ofDefinitions definitions = .ok other ∧
            other.decode advertisement = catalog.decode advertisement) ∧
      ∃ advertisement : List UInt8,
        advertisement.length = 49 ∧ (catalog.claimants advertisement).length = 2 := by
  have exclusive := exclusive_builtInEntries
  refine ⟨_, builtIn_eq_ok, exclusive.countP_readStructure_le_one builtIn_eq_ok, ?_,
    twoFrames.flatMap AdStructure.encode, rfl, congrArg List.length claimants_twoFrames⟩
  intro advertisement short
  have unique := exclusive.countP_decode_le_one builtIn_eq_ok short
  refine ⟨(length_claimants _ _).trans_le unique, fun definitions perm => ?_⟩
  obtain ⟨other, built, reordered⟩ := exists_ofDefinitions_of_perm builtIn_eq_ok perm
  exact ⟨other, built, findSome?_eq_of_perm reordered unique⟩

/-- Flags and a complete structure of RuuviTag. -/
def ruuviTagFrames : List AdStructure :=
  [⟨0x01, [0x06]⟩,
    ⟨AdType.manufacturerData, [0x99, 0x04, 5] ++ List.replicate 17 0 ++ [0xC0, 0, 0, 0, 0, 1]⟩]

theorem decode_ruuviTagFrames :
    (Catalog.mk builtInEntries).decode (ruuviTagFrames.flatMap AdStructure.encode) =
      some ⟨.ruuviTag, ⟨0x990405, [.bytes [0xC0, 0, 0, 0, 0, 1]], [], none⟩⟩ := by
  have walked := @Advertisement.structures_flatMap_encode ruuviTagFrames (by decide)
  simp only [decode, Entry.decode, Layout.decode, walked]
  decide

theorem builtIn_exclusive_reversed :
    ∃ catalog other, builtIn = .ok catalog ∧
      ofDefinitions builtInDefinitions.reverse = .ok other ∧
      other.decode (ruuviTagFrames.flatMap AdStructure.encode) =
        catalog.decode (ruuviTagFrames.flatMap AdStructure.encode) ∧
      catalog.decode (ruuviTagFrames.flatMap AdStructure.encode) =
        some ⟨.ruuviTag, ⟨0x990405, [.bytes [0xC0, 0, 0, 0, 0, 1]], [], none⟩⟩ ∧
      (catalog.claimants (ruuviTagFrames.flatMap AdStructure.encode)).length ≤ 1 := by
  obtain ⟨catalog, built, _, short, _⟩ := builtIn_exclusive
  cases built.symm.trans builtIn_eq_ok
  obtain ⟨unique, reordered⟩ := short (ruuviTagFrames.flatMap AdStructure.encode) (by decide)
  obtain ⟨other, rebuilt, same⟩ := reordered _ builtInDefinitions.reverse_perm
  exact ⟨_, other, built, rebuilt, same, decode_ruuviTagFrames, unique⟩

end BleBeacon.Catalog
