import BleBeacon.Advertisement

/-!
# Walking inverts encoding

One step of the walk takes exactly one encoded structure off the front, and where it takes none the
bytes are of one of three kinds. Hence encoded structures are found again in front of anything, and
every advertisement is the encoding of the structures found in it, followed by bytes at which the
walk ends.
-/

namespace BleBeacon

namespace AdStructure

/-- The most bytes of data whose length fits the length byte, which counts the type byte too. -/
def maxDataLength : Nat := 254

/-- The number of bytes of an encoded structure. -/
def size (element : AdStructure) : Nat :=
  element.data.length + 2

theorem toNat_lengthByte {element : AdStructure} (short : element.data.length ≤ maxDataLength) :
    (UInt8.ofNat (element.data.length + 1)).toNat = element.data.length + 1 :=
  UInt8.toNat_ofNat_of_lt' (Nat.lt_of_le_of_lt (Nat.succ_le_succ short) (by decide))

end AdStructure

namespace Advertisement

/-- The bytes at which a walk ends: none, padding, or a structure that is cut off. -/
inductive Ends : List UInt8 → Prop
  | exhausted : Ends []
  | padding {rest : List UInt8} : Ends (0 :: rest)
  | cutOff {length : UInt8} {rest : List UInt8} :
      length ≠ 0 → rest.length < length.toNat → Ends (length :: rest)

/-! ## One step -/

theorem next_cons_cons (length adType : UInt8) (rest : List UInt8) :
    next (length :: adType :: rest) =
      if length = 0 ∨ rest.length + 1 < length.toNat then (none, [])
      else (some ⟨adType, rest.take (length.toNat - 1)⟩, rest.drop (length.toNat - 1)) := rfl

theorem next_encode_append {element : AdStructure}
    (short : element.data.length ≤ AdStructure.maxDataLength) (behind : List UInt8) :
    next (element.encode ++ behind) = (some element, behind) := by
  have length := AdStructure.toNat_lengthByte short
  have present : ¬(UInt8.ofNat (element.data.length + 1) = 0 ∨
      (element.data ++ behind).length + 1 < (UInt8.ofNat (element.data.length + 1)).toNat) := by
    rintro (zero | outside)
    · simp [zero] at length
    · rw [length, List.length_append] at outside
      omega
  rw [AdStructure.encode, List.cons_append, List.cons_append, next_cons_cons, if_neg present,
    length, Nat.add_sub_cancel, List.take_left, List.drop_left]

theorem eq_encode_append_of_next {bytes behind : List UInt8} {found : AdStructure}
    (step : next bytes = (some found, behind)) :
    bytes = found.encode ++ behind ∧ found.data.length ≤ AdStructure.maxDataLength := by
  match bytes with
  | [] | [_] => cases step
  | length :: adType :: rest =>
      rw [next_cons_cons] at step
      split at step
      · cases step
      · rename_i present
        cases step
        rw [not_or, Nat.not_lt] at present
        obtain ⟨positive, inside⟩ := present
        have bound := length.toNat_lt
        have nonzero : length.toNat ≠ 0 := fun zero => positive (UInt8.toNat_inj.1 zero)
        have width : (rest.take (length.toNat - 1)).length = length.toNat - 1 := by
          rw [List.length_take]
          omega
        constructor
        · rw [AdStructure.encode, width, Nat.sub_add_cancel (Nat.pos_of_ne_zero nonzero),
            UInt8.ofNat_toNat, List.cons_append, List.cons_append, List.take_append_drop]
        · rw [width, AdStructure.maxDataLength]
          omega

/-- The walk takes a structure off the front exactly if its encoding is there. -/
theorem next_eq_some_iff {bytes behind : List UInt8} {found : AdStructure} :
    next bytes = (some found, behind) ↔
      bytes = found.encode ++ behind ∧ found.data.length ≤ AdStructure.maxDataLength := by
  constructor
  · exact eq_encode_append_of_next
  · rintro ⟨rfl, short⟩
    exact next_encode_append short behind

/-- Otherwise the walk ends, and leaves nothing to walk. -/
theorem next_eq_none_iff {bytes : List UInt8} : next bytes = (none, []) ↔ Ends bytes := by
  have end_of_stop : ∀ {length : UInt8} {rest : List UInt8},
      length = 0 ∨ rest.length < length.toNat → Ends (length :: rest) := by
    intro length rest stop
    by_cases zero : length = 0
    · subst zero
      exact .padding
    · exact .cutOff zero (stop.resolve_left zero)
  constructor
  · intro step
    match bytes with
    | [] => exact .exhausted
    | [length] =>
        refine end_of_stop (Decidable.or_iff_not_imp_left.2 fun nonzero => ?_)
        exact Nat.pos_of_ne_zero fun zero => nonzero (UInt8.toNat_inj.1 zero)
    | length :: adType :: rest =>
        rw [next_cons_cons] at step
        split at step
        · rename_i stop
          exact end_of_stop stop
        · cases step
  · intro ends
    cases ends with
    | exhausted => rfl
    | @padding rest => cases rest <;> rfl
    | @cutOff length rest nonzero outside =>
        cases rest with
        | nil => rfl
        | cons adType rest => exact if_pos (.inr outside)

theorem next_of_none {bytes behind : List UInt8} (step : next bytes = (none, behind)) :
    next bytes = (none, []) := by
  match bytes with
  | [] | [_] => rfl
  | length :: adType :: rest =>
      rw [next_cons_cons] at step ⊢
      split
      · rfl
      · rename_i present
        rw [if_neg present] at step
        cases step

/-! ## The whole walk -/

theorem structures_of_ends {bytes : List UInt8} (ends : Ends bytes) : structures bytes = [] := by
  rw [structures]
  split
  · rfl
  · rename_i found step
    rw [next_eq_none_iff.2 ends] at step
    cases step

theorem structures_of_next {bytes behind : List UInt8} {found : AdStructure}
    (step : next bytes = (some found, behind)) : structures bytes = found :: structures behind := by
  rw [structures]
  split
  · rename_i stop
    rw [step] at stop
    cases stop
  · rename_i other taken
    rw [step] at taken ⊢
    cases taken
    rfl

/-- A structure is the only one of its encoding. -/
theorem structures_encode {element : AdStructure}
    (short : element.data.length ≤ AdStructure.maxDataLength) :
    structures element.encode = [element] := by
  have found := structures_of_next (next_encode_append short [])
  rwa [List.append_nil, structures_of_ends .exhausted] at found

/-- A step finds the first structure and leaves the others. -/
theorem head?_and_tail_structures (bytes : List UInt8) :
    (structures bytes).head? = (next bytes).1 ∧
      (structures bytes).tail = structures (next bytes).2 := by
  cases found : (next bytes).1 with
  | none =>
      have stop := next_of_none (Prod.ext found rfl)
      rw [stop, structures_of_ends (next_eq_none_iff.1 stop), structures_of_ends .exhausted]
      exact ⟨rfl, rfl⟩
  | some element =>
      rw [structures_of_next (Prod.ext found rfl)]
      exact ⟨rfl, rfl⟩

/-- Encoded structures are found again, and what follows them is walked as if it stood alone. -/
theorem structures_flatMap_encode_append {elements : List AdStructure}
    (short : ∀ element ∈ elements, element.data.length ≤ AdStructure.maxDataLength)
    (tail : List UInt8) :
    structures (elements.flatMap AdStructure.encode ++ tail) = elements ++ structures tail := by
  induction elements with
  | nil => rfl
  | cons element elements ih =>
      obtain ⟨head, rest⟩ := List.forall_mem_cons.1 short
      rw [List.flatMap_cons, List.append_assoc, structures_of_next (next_encode_append head _),
        ih rest, List.cons_append]

theorem structures_flatMap_encode {elements : List AdStructure}
    (short : ∀ element ∈ elements, element.data.length ≤ AdStructure.maxDataLength) :
    structures (elements.flatMap AdStructure.encode) = elements := by
  have found := structures_flatMap_encode_append short []
  rwa [List.append_nil, structures_of_ends .exhausted, List.append_nil] at found

/-- An advertisement is the encoding of its structures and an end of the walk. -/
theorem exists_eq_encode_append (bytes : List UInt8) :
    (∀ element ∈ structures bytes, element.data.length ≤ AdStructure.maxDataLength) ∧
      ∃ rest, bytes = (structures bytes).flatMap AdStructure.encode ++ rest ∧ Ends rest := by
  -- The induction follows the walk: what is left behind a structure is shorter.
  induction bytes using structures.induct with
  | case1 bytes stop =>
      have ends := next_eq_none_iff.1 (next_of_none (Prod.ext stop rfl))
      rw [structures_of_ends ends]
      exact ⟨by simp, bytes, rfl, ends⟩
  | case2 bytes found step ih =>
      obtain ⟨short, rest, whole, ends⟩ := ih
      obtain ⟨taken, fits⟩ := next_eq_some_iff.1 (Prod.ext step rfl)
      rw [structures_of_next (Prod.ext step rfl)]
      refine ⟨List.forall_mem_cons.2 ⟨fits, short⟩, rest, ?_, ends⟩
      rw [List.flatMap_cons, List.append_assoc, ← whole]
      exact taken

end Advertisement

end BleBeacon
