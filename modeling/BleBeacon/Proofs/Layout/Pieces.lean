import BleBeacon.Layout.Compile
import BleBeacon.Proofs.Pairing
import Mathlib.Data.List.DropRight
import Mathlib.Data.List.TakeWhile

/-!
# Tokens between commas

The tokens of a text are stated without the functions that cut it. The text is made of pieces with
commas between them, a token is what is left of a piece without the white space at its ends, and
pieces of which nothing is left do not count. Every text has one list of tokens, the compiled one.
-/

namespace BleBeacon

namespace Text

/-! ## White space -/

/-- The code points of the characters with the Unicode property `White_Space`. -/
def whiteSpace : List Nat :=
  [0x0009, 0x000A, 0x000B, 0x000C, 0x000D, 0x0020, 0x0085, 0x00A0, 0x1680, 0x2000, 0x2001, 0x2002,
    0x2003, 0x2004, 0x2005, 0x2006, 0x2007, 0x2008, 0x2009, 0x200A, 0x2028, 0x2029, 0x202F, 0x205F,
    0x3000]

theorem isBlank_iff {char : Char} : isBlank char = true ↔ char.toNat ∈ whiteSpace := by
  simp only [isBlank, blankRanges, whiteSpace, List.any_cons, List.any_nil, Bool.or_eq_true,
    Bool.and_eq_true, decide_eq_true_eq, Bool.false_eq_true, List.mem_cons, List.not_mem_nil,
    or_false]
  omega

theorem isBlank_eq_false_iff {char : Char} : isBlank char = false ↔ char.toNat ∉ whiteSpace := by
  rw [← isBlank_iff, Bool.not_eq_true]

/-- A piece and what is left of it without the white space at its two ends. -/
structure Trims (piece token : List Char) : Prop where
  around : ∃ front back, piece = front ++ token ++ back ∧
    (∀ char ∈ front, char.toNat ∈ whiteSpace) ∧ ∀ char ∈ back, char.toNat ∈ whiteSpace
  first : ∀ char ∈ token.head?, char.toNat ∉ whiteSpace
  last : ∀ char ∈ token.getLast?, char.toNat ∉ whiteSpace

theorem trim_eq_rdropWhile (text : List Char) :
    trim text = (text.dropWhile isBlank).rdropWhile isBlank :=
  rfl

theorem trims_trim (piece : List Char) : Trims piece (trim piece) where
  around := by
    refine ⟨piece.takeWhile isBlank, (piece.dropWhile isBlank).rtakeWhile isBlank, ?_,
      fun char member => isBlank_iff.1 (List.mem_takeWhile_imp member),
      fun char member => isBlank_iff.1 (List.mem_rtakeWhile_imp member)⟩
    rw [trim_eq_rdropWhile, List.append_assoc, List.rdropWhile_append_rtakeWhile,
      List.takeWhile_append_dropWhile]
  first := by
    intro char first
    obtain ⟨rest, whole⟩ := List.rdropWhile_prefix isBlank (piece.dropWhile isBlank)
    rw [← trim_eq_rdropWhile] at whole
    have stop := List.head?_dropWhile_not isBlank piece
    rw [← whole, List.head?_append, first, Option.some_or] at stop
    exact isBlank_eq_false_iff.1 stop
  last := by
    intro char last
    obtain ⟨nonempty, rfl⟩ := List.mem_getLast?_eq_getLast last
    rw [← isBlank_iff]
    exact List.rdropWhile_last_not isBlank _ nonempty

/-- Blanks are dropped up to a character that is none. -/
theorem dropWhile_isBlank_append {front rest : List Char}
    (blank : ∀ char ∈ front, char.toNat ∈ whiteSpace)
    (stop : ∀ char ∈ rest.head?, char.toNat ∉ whiteSpace) :
    (front ++ rest).dropWhile isBlank = rest := by
  rw [List.dropWhile_append_of_pos fun char member => isBlank_iff.2 (blank char member)]
  cases rest with
  | nil => rfl
  | cons char rest => simp [isBlank_eq_false_iff.2 (stop char rfl)]

/-- A piece has one such rest, the trimmed piece. -/
theorem trims_iff {piece token : List Char} : Trims piece token ↔ token = trim piece := by
  constructor
  · rintro ⟨⟨front, back, rfl, blankFront, blankBack⟩, first, last⟩
    rw [trim, List.append_assoc]
    cases token with
    | nil =>
        -- Nothing stops the first of the two passes, so the second one has nothing to drop.
        have none : (front ++ ([] ++ back)).dropWhile isBlank = [] :=
          List.dropWhile_eq_nil_iff.2 fun char member =>
            isBlank_iff.2 ((List.mem_append.1 member).elim (blankFront char) (blankBack char))
        rw [none]
        rfl
    | cons char rest =>
        have behind : ∀ char ∈ back.reverse, char.toNat ∈ whiteSpace := by simpa using blankBack
        rw [dropWhile_isBlank_append blankFront (by simpa using first), List.reverse_append,
          dropWhile_isBlank_append behind (by rwa [List.head?_reverse]), List.reverse_reverse]
  · rintro rfl
    exact trims_trim piece

theorem Trims.mem {piece token : List Char} (trims : Trims piece token) {char : Char}
    (member : char ∈ token) : char ∈ piece := by
  obtain ⟨front, back, rfl, _⟩ := trims.around
  simp [member]

theorem Trims.trim_eq {piece token : List Char} (trims : Trims piece token) :
    trim token = token :=
  (trims_iff.1 ⟨⟨[], [], by simp, by simp, by simp⟩, trims.first, trims.last⟩).symm

theorem forall₂_trims_iff {pieces rests : List (List Char)} :
    List.Forall₂ Trims pieces rests ↔ rests = pieces.map trim :=
  forall₂_iff_eq_map @trims_iff

/-! ## Pieces -/

theorem separator_notMem_of_mem_splitOn {separator : Char} {text piece : List Char}
    (member : piece ∈ text.splitOn separator) : separator ∉ piece := by
  induction text generalizing piece with
  | nil =>
      rw [List.splitOn_nil, List.mem_singleton] at member
      simp [member]
  | cons char text ih =>
      rw [List.splitOn_cons_eq_if_modifyHead] at member
      split at member
      · rcases List.mem_cons.1 member with rfl | behind
        · exact List.not_mem_nil
        · exact ih behind
      · rename_i different
        cases pieces : text.splitOn separator with
        | nil => simp [pieces] at member
        | cons head tail =>
            rw [pieces, List.modifyHead_cons] at member
            rcases List.mem_cons.1 member with rfl | behind
            · have other : separator ≠ char := fun same => different (by simp [same])
              exact List.not_mem_cons_of_ne_of_not_mem other (ih (pieces ▸ List.mem_cons_self))
            · exact ih (pieces ▸ List.mem_cons_of_mem _ behind)

/-- A text is cut into the pieces without the separator of which it is made. -/
theorem eq_splitOn_iff {separator : Char} {text : List Char} {pieces : List (List Char)} :
    pieces = text.splitOn separator ↔ pieces ≠ [] ∧ (∀ piece ∈ pieces, separator ∉ piece) ∧
      text = [separator].intercalate pieces := by
  constructor
  · rintro rfl
    exact ⟨List.splitOn_ne_nil _ _, fun _ => separator_notMem_of_mem_splitOn,
      (List.intercalate_splitOn separator).symm⟩
  · rintro ⟨some, separate, rfl⟩
    exact (List.splitOn_intercalate separator separate some).symm

end Text

namespace Layout

/-- The tokens of a text: what is left of the pieces between its commas without the white space at
their ends, unless nothing is. -/
def TokensOf (text : List Char) (tokens : List (List Char)) : Prop :=
  ∃ pieces rests, pieces ≠ [] ∧ (∀ piece ∈ pieces, ',' ∉ piece) ∧
    text = [','].intercalate pieces ∧ List.Forall₂ Text.Trims pieces rests ∧
    tokens = rests.filter (· ≠ [])

/-- Every text has exactly one list of tokens, and that one is compiled. -/
theorem tokensOf_iff {text : List Char} {found : List (List Char)} :
    TokensOf text found ↔ found = tokens text := by
  have kept : ∀ rests : List (List Char),
      rests.filter (· ≠ []) = rests.filter fun token => !token.isEmpty := by
    intro rests
    congr
    funext token
    cases token <;> rfl
  constructor
  · rintro ⟨pieces, rests, nonempty, separate, whole, trimmed, rfl⟩
    rw [kept, Text.forall₂_trims_iff.1 trimmed, Text.eq_splitOn_iff.2 ⟨nonempty, separate, whole⟩]
    rfl
  · rintro rfl
    obtain ⟨nonempty, separate, whole⟩ := Text.eq_splitOn_iff.1 (Eq.refl (text.splitOn ','))
    exact ⟨text.splitOn ',', _, nonempty, separate, whole, Text.forall₂_trims_iff.2 rfl,
      (kept _).symm⟩

end Layout

end BleBeacon
