/-!
# Results that may be errors

When a computation in steps, a mapped result or a result behind a check succeeds, and when it fails.
-/

namespace BleBeacon

variable {ε α β : Type}

/-- A computation in steps succeeds exactly if its first step does and then the others do. -/
theorem bind_eq_ok_iff {first : Except ε α} {rest : α → Except ε β} {value : β} :
    (first >>= rest) = .ok value ↔ ∃ middle, first = .ok middle ∧ rest middle = .ok value := by
  cases first with
  | error fault => exact ⟨nofun, nofun⟩
  | ok middle =>
      constructor
      · intro result
        exact ⟨middle, rfl, result⟩
      · rintro ⟨_, ⟨⟩, result⟩
        exact result

theorem map_eq_ok_iff {result : Except ε α} {next : α → β} {value : β} :
    result.map next = .ok value ↔ ∃ middle, result = .ok middle ∧ next middle = value := by
  cases result with
  | error fault => exact ⟨nofun, nofun⟩
  | ok middle => simp [Except.map]

theorem map_eq_error_iff {result : Except ε α} {next : α → β} {fault : ε} :
    result.map next = .error fault ↔ result = .error fault := by
  cases result <;> simp [Except.map]

/-- A check that refuses is passed by a result behind it. -/
theorem check_eq_ok_iff {refused : Prop} [Decidable refused] {fault : ε} {rest : Except ε α}
    {value : α} :
    (if refused then .error fault else rest) = .ok value ↔ ¬refused ∧ rest = .ok value := by
  by_cases refused <;> simp [*]

end BleBeacon
