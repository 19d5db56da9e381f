/-!
# Cutting a text at a separator

`cut` splits a text at the first occurrence of a separator. Its result is determined by two facts:
the parts and the separator make up the text, and the first part does not hold the separator.
-/

namespace BleBeacon.Text

/-- The parts of a text before and after the first `separator`. -/
def cut (separator : Char) : List Char → Option (List Char × List Char)
  | [] => none
  | char :: rest =>
      if char = separator then
        some ([], rest)
      else
        (cut separator rest).map fun (before, after) => (char :: before, after)

theorem cut_eq_none_iff {separator : Char} {text : List Char} :
    cut separator text = none ↔ separator ∉ text := by
  induction text with
  | nil => simp [cut]
  | cons char rest ih =>
      by_cases same : char = separator
      · simp [cut, same]
      · simp [cut, same, ih, Ne.symm same]

theorem cut_eq_some_iff {separator : Char} {text before after : List Char} :
    cut separator text = some (before, after) ↔
      text = before ++ separator :: after ∧ separator ∉ before := by
  induction text generalizing before with
  | nil => simp [cut]
  | cons char rest ih =>
      by_cases same : char = separator
      · cases before <;> simp_all [cut, eq_comm]
      · cases before with
        | nil => simp [cut, same]
        | cons head before =>
            simp only [cut, same, if_false, Option.map_eq_some_iff, Prod.exists]
            grind

end BleBeacon.Text
