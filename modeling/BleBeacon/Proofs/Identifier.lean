import BleBeacon.Proofs.Decoding
import BleBeacon.Proofs.Layout.CanonicalText

/-!
# Texts of identifiers

The text of an identifier tells which identifier it is, of all classes and widths: only a UUID has
hyphens in its text and only other bytes have an `x`. The text is plain, and how long it can get
depends on the number of bytes that were classified.
-/

namespace BleBeacon

open Text

namespace Uuid

theorem text_injective {left right : Uuid} (same : left.text = right.text) : left = right := by
  have leftRead := read?_eq_some_iff.2 left.map_toLower_text
  have rightRead := read?_eq_some_iff.2 right.map_toLower_text
  rw [same, rightRead] at leftRead
  exact (Option.some.inj leftRead).symm

theorem hyphen_mem_text (uuid : Uuid) : '-' ∈ uuid.text := by
  simp [text, groupSizes, pieces, List.intercalate, List.intersperse]

theorem plain_text (uuid : Uuid) : ∀ char ∈ uuid.text, isPlain char = true := by
  intro char member
  rcases digit?_isSome_of_text uuid.map_toLower_text member with rfl | digit
  · rfl
  · exact Hex.isPlain_of_digit? digit

end Uuid

namespace Identifier

theorem plain_text (identifier : Identifier) :
    ∀ char ∈ identifier.text, isPlain char = true := by
  cases identifier with
  | uuid id => exact id.plain_text
  | number id => exact (Decimal.spells_ofNat id.toNat).plain
  | bytes id =>
      have lower := Hex.decode?_eq_some_iff.1 (Hex.decode?_encode id)
      exact List.forall_mem_cons.2 ⟨rfl, List.forall_mem_cons.2 ⟨rfl, Hex.plain_of_encode lower⟩⟩

/-! ## Texts tell identifiers apart -/

/-- Hyphens are for UUIDs. -/
theorem hyphen_mem_text_iff {identifier : Identifier} :
    '-' ∈ identifier.text ↔ ∃ id, identifier = uuid id := by
  cases identifier with
  | uuid id => exact iff_of_true id.hyphen_mem_text ⟨id, rfl⟩
  | number id =>
      refine iff_of_false (fun member => ?_) nofun
      exact absurd (Decimal.isDigit_of_mem_ofNat member) (by decide)
  | bytes id =>
      refine iff_of_false (fun member => ?_) nofun
      rcases List.mem_cons.1 member with impossible | member
      · exact absurd impossible (by decide)
      rcases List.mem_cons.1 member with impossible | member
      · exact absurd impossible (by decide)
      have lower := Hex.decode?_eq_some_iff.1 (Hex.decode?_encode id)
      exact absurd (Hex.digit?_isSome_of_encode lower member) (by decide)

/-- The `x` is for bytes. -/
theorem x_mem_text_iff {identifier : Identifier} :
    'x' ∈ identifier.text ↔ ∃ id, identifier = bytes id := by
  cases identifier with
  | uuid id =>
      refine iff_of_false (fun member => ?_) nofun
      rcases Uuid.digit?_isSome_of_text id.map_toLower_text member with impossible | digit
      · exact absurd impossible (by decide)
      · exact absurd digit (by decide)
  | number id =>
      refine iff_of_false (fun member => ?_) nofun
      exact absurd (Decimal.isDigit_of_mem_ofNat member) (by decide)
  | bytes id => exact iff_of_true (by simp [text]) ⟨id, rfl⟩

/-- Identifiers with the same text are the same. -/
theorem text_injective : Function.Injective text := by
  intro left right same
  cases left with
  | uuid id =>
      have marked : '-' ∈ (uuid id).text := hyphen_mem_text_iff.2 ⟨id, rfl⟩
      obtain ⟨other, rfl⟩ := hyphen_mem_text_iff.1 (same ▸ marked)
      exact congrArg uuid (Uuid.text_injective same)
  | bytes id =>
      have marked : 'x' ∈ (bytes id).text := x_mem_text_iff.2 ⟨id, rfl⟩
      obtain ⟨other, rfl⟩ := x_mem_text_iff.1 (same ▸ marked)
      have digits : Hex.encode id = Hex.encode other := (List.cons.inj (List.cons.inj same).2).2
      exact congrArg bytes (Hex.encode_injective digits)
  | number id =>
      cases right with
      | uuid other =>
          have marked : '-' ∈ (uuid other).text := hyphen_mem_text_iff.2 ⟨other, rfl⟩
          obtain ⟨_, impossible⟩ := hyphen_mem_text_iff.1 (same ▸ marked)
          cases impossible
      | bytes other =>
          have marked : 'x' ∈ (bytes other).text := x_mem_text_iff.2 ⟨other, rfl⟩
          obtain ⟨_, impossible⟩ := x_mem_text_iff.1 (same ▸ marked)
          cases impossible
      | number other =>
          have value := Decimal.ofNat_injective same
          exact congrArg number (UInt32.toNat_inj.1 value)

/-! ## Lengths -/

/-- The longest text of an identifier of a number of bytes. -/
def textLimit (width : Nat) : Nat :=
  if width = 16 then 36 else if 1 ≤ width ∧ width ≤ 4 then 10 else 2 + 2 * width

theorem Classifies.length_text_le {sent : List UInt8} {identifier : Identifier}
    (classified : Classifies sent identifier) : identifier.text.length ≤ textLimit sent.length := by
  cases classified with
  | uuid sixteen => rw [textLimit, if_pos sixteen, text, Uuid.length_text]
  | @number id some few value =>
      rw [textLimit, if_neg (by omega), if_pos ⟨some, few⟩, text, Decimal.ofNat,
        Nat.length_toDigits_le_iff (by decide) (by decide)]
      exact Nat.lt_trans id.toNat_lt (by decide)
  | bytes notUuid many =>
      rw [textLimit, if_neg notUuid, if_neg many, text, List.length_cons, List.length_cons,
        Hex.length_encode]
      omega

end Identifier

end BleBeacon
