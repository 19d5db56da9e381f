import Mathlib.Data.List.Forall2

/-!
# Lists paired item by item

A list can be paired with some list exactly if each of its items has a partner. A list is paired with
the list of images if an image is the only partner of an item, and it is mapped by a partial function
exactly to the list of the results.
-/

namespace BleBeacon

variable {α β : Type} {related : α → β → Prop}

theorem exists_mem_of_forall₂ {items : List α} {partners : List β}
    (pairs : List.Forall₂ related items partners) :
    ∀ item ∈ items, ∃ partner ∈ partners, related item partner := by
  induction pairs with
  | nil => simp
  | cons head _ ih =>
      refine List.forall_mem_cons.2 ⟨⟨_, List.mem_cons_self, head⟩, fun item member => ?_⟩
      obtain ⟨partner, held, pair⟩ := ih item member
      exact ⟨partner, List.mem_cons_of_mem _ held, pair⟩

theorem exists_forall₂_iff {items : List α} :
    (∃ partners, List.Forall₂ related items partners) ↔
      ∀ item ∈ items, ∃ partner, related item partner := by
  constructor
  · rintro ⟨partners, pairs⟩ item member
    obtain ⟨partner, _, pair⟩ := exists_mem_of_forall₂ pairs item member
    exact ⟨partner, pair⟩
  · intro each
    induction items with
    | nil => exact ⟨[], .nil⟩
    | cons item items ih =>
        obtain ⟨⟨partner, head⟩, rest⟩ := List.forall_mem_cons.1 each
        obtain ⟨partners, pairs⟩ := ih rest
        exact ⟨partner :: partners, .cons head pairs⟩

theorem forall₂_iff_eq_map {image : α → β}
    (only : ∀ item partner, related item partner ↔ partner = image item) {items : List α}
    {partners : List β} :
    List.Forall₂ related items partners ↔ partners = items.map image := by
  induction items generalizing partners with
  | nil => simp
  | cons item items ih => simp [List.forall₂_cons_left_iff, only, ih]

/-- Items with the same partners in two relations have these partners in common. -/
theorem exists_shared_of_forall₂ {other : α → β → Prop} {items : List α} {partners : List β}
    (pairs : List.Forall₂ related items partners) (others : List.Forall₂ other items partners) :
    ∀ item ∈ items, ∃ partner, related item partner ∧ other item partner := by
  induction pairs with
  | nil => simp
  | cons head _ ih =>
      obtain ⟨otherHead, otherRest⟩ := List.forall₂_cons.1 others
      exact List.forall_mem_cons.2 ⟨⟨_, head, otherHead⟩, ih otherRest⟩

theorem mapM_congr_of_mem {read other : α → Option β} {items : List α}
    (same : ∀ item ∈ items, read item = other item) : items.mapM read = items.mapM other := by
  induction items with
  | nil => rfl
  | cons item items ih =>
      obtain ⟨head, rest⟩ := List.forall_mem_cons.1 same
      rw [List.mapM_cons, List.mapM_cons, head, ih rest]

theorem mapM_eq_some_iff {read : α → Option β} {items : List α} {results : List β}
    (reads : ∀ item ∈ items, ∀ result, read item = some result ↔ related item result) :
    items.mapM read = some results ↔ List.Forall₂ related items results := by
  induction items generalizing results with
  | nil => simp [eq_comm]
  | cons item items ih =>
      obtain ⟨head, rest⟩ := List.forall_mem_cons.1 reads
      simp only [List.mapM_cons, Option.bind_eq_bind, Option.bind_eq_some_iff, Option.pure_def,
        Option.some.injEq, head, ih rest, List.forall₂_cons_left_iff, @eq_comm _ _ results]
      grind

end BleBeacon
