import BleBeacon.Json
import BleBeacon.Proofs.Layout.Grammar
import Mathlib.Logic.Function.Basic

/-!
# Reading JSON text in one way only

Inside an array or an object a value stands in front of a delimiter. A way to write values is
readable if then both the value and the place where it ends can be told: numbers hold no delimiter,
a string ends at its first bare quote because no escape begins with one and no escape is the
beginning of another, and an array ends at a bracket where no item can begin. The text is visible
whatever the strings hold.
-/

namespace BleBeacon.Json

/-! ## Delimiters -/

/-- The characters that can follow a value. -/
def isDelimiter (char : Char) : Bool :=
  char == ',' || char == ']' || char == '}'

/-- A text that begins with a delimiter. -/
inductive Delimited : List Char → Prop
  | intro {delimiter : Char} {rest : List Char} :
      isDelimiter delimiter = true → Delimited (delimiter :: rest)

/-- In front of delimiters, texts without delimiters are equal if the whole texts are. -/
theorem append_inj_of_delimited {left right rest other : List Char}
    (leftFree : ∀ char ∈ left, isDelimiter char = false)
    (rightFree : ∀ char ∈ right, isDelimiter char = false)
    (stop : Delimited rest) (otherStop : Delimited other)
    (same : left ++ rest = right ++ other) : left = right ∧ rest = other := by
  have apart : ∀ {text tail behind : List Char} {char : Char},
      (∀ inside ∈ char :: text, isDelimiter inside = false) →
      tail = char :: text ++ behind → ¬Delimited tail := by
    intro text tail behind char free equal stopped
    subst equal
    cases stopped with
    | intro delimiter => exact absurd (delimiter.symm.trans (free char List.mem_cons_self)) nofun
  induction left generalizing right with
  | nil =>
      cases right with
      | nil => exact ⟨rfl, same⟩
      | cons char right => exact absurd stop (apart rightFree same)
  | cons char left ih =>
      cases right with
      | nil => exact absurd otherStop (apart leftFree same.symm)
      | cons otherChar right =>
          obtain ⟨head, tail⟩ := List.cons.inj same
          obtain ⟨front, back⟩ := ih (List.forall_mem_cons.1 leftFree).2
            (List.forall_mem_cons.1 rightFree).2 tail
          exact ⟨congrArg₂ List.cons head front, back⟩

/-! ## Readable values -/

/-- In front of a delimiter, the value and its end can be told from the text. No value begins with a
delimiter or is empty. -/
structure Readable {α : Type} (write : α → List Char) : Prop where
  begins : ∀ (value : α) (rest : List Char), ¬Delimited (write value ++ rest)
  unique : ∀ {left right : α} {rest other : List Char}, Delimited rest → Delimited other →
    write left ++ rest = write right ++ other → left = right ∧ rest = other

namespace Readable

variable {α β : Type} {write : α → List Char}

/-- What stands in front of a comma can be read, and then what follows the comma. -/
theorem next (readable : Readable write) {left right : α} {rest other : List Char}
    (same : write left ++ ',' :: rest = write right ++ ',' :: other) :
    left = right ∧ rest = other := by
  obtain ⟨value, behind⟩ := readable.unique (.intro rfl) (.intro rfl) same
  exact ⟨value, (List.cons.inj behind).2⟩

theorem comp (readable : Readable write) {part : β → α} (injective : Function.Injective part) :
    Readable fun value => write (part value) where
  begins value := readable.begins (part value)
  unique stop otherStop same := by
    obtain ⟨value, behind⟩ := readable.unique stop otherStop same
    exact ⟨injective value, behind⟩

/-- Texts without delimiters can be read if they differ. -/
theorem of_plain (nonempty : ∀ value, write value ≠ [])
    (plain : ∀ value, ∀ char ∈ write value, Text.isPlain char = true)
    (injective : Function.Injective write) : Readable write := by
  have table : ∀ char, isDelimiter char = true → Text.isPlain char = false := by
    intro char delimiter
    simp only [isDelimiter, Bool.or_eq_true, beq_iff_eq] at delimiter
    rcases delimiter with (rfl | rfl) | rfl <;> decide
  have free : ∀ value, ∀ char ∈ write value, isDelimiter char = false := by
    intro value char member
    cases delimiter : isDelimiter char with
    | false => rfl
    | true => exact absurd ((plain value char member).symm.trans (table char delimiter)) nofun
  constructor
  case begins =>
    intro value rest stopped
    cases text : write value with
    | nil => exact nonempty value text
    | cons char tail =>
        rw [text] at stopped
        cases stopped with
        | intro delimiter =>
            have other := free value char (text ▸ List.mem_cons_self)
            exact absurd (delimiter.symm.trans other) nofun
  case unique =>
    intro left right rest other stop otherStop same
    obtain ⟨texts, behind⟩ :=
      append_inj_of_delimited (free left) (free right) stop otherStop same
    exact ⟨injective texts, behind⟩

end Readable

/-! ## Numbers -/

theorem readable_nat : Readable nat := by
  apply Readable.of_plain
  · exact Text.Decimal.ofNat_ne_nil
  · exact fun number => (Text.Decimal.spells_ofNat number).plain
  · exact Text.Decimal.ofNat_injective

theorem readable_int : Readable int := by
  apply Readable.of_plain
  · intro number
    cases number with
    | ofNat natural => exact Text.Decimal.ofNat_ne_nil natural
    | negSucc natural => exact List.cons_ne_nil _ _
  · exact fun number => (Text.Decimal.spellsSigned_ofInt number).plain
  · exact Text.Decimal.ofInt_injective

/-! ## Strings -/

/-- The characters that stand for themselves in a string. -/
def isVerbatim (char : Char) : Bool :=
  decide (0x20 ≤ char.toNat) && char != '"' && char != '\\'

theorem escape_of_isVerbatim {char : Char} (verbatim : isVerbatim char = true) :
    escape char = [char] := by
  simp only [isVerbatim, Bool.and_eq_true, decide_eq_true_eq, bne_iff_ne] at verbatim
  obtain ⟨⟨visible, notQuote⟩, notBackslash⟩ := verbatim
  have notControl : ∀ {control : Char}, control.toNat < 0x20 → char ≠ control := by
    intro control low equal
    rw [equal] at visible
    exact absurd low (Nat.not_lt.2 visible)
  rw [escape, if_neg notQuote, if_neg notBackslash, if_neg (notControl (by decide)),
    if_neg (notControl (by decide)), if_neg (notControl (by decide)),
    if_neg (notControl (by decide)), if_neg (notControl (by decide)),
    if_neg (Nat.not_lt.2 visible)]

/-- The other characters: those below a space, quotes and backslashes. -/
def specials : List Char :=
  '"' :: '\\' :: (List.range 0x20).map Char.ofNat

theorem mem_specials {char : Char} (special : isVerbatim char = false) : char ∈ specials := by
  simp only [isVerbatim, Bool.and_eq_false_iff, decide_eq_false_iff_not, bne_eq_false_iff_eq,
    Nat.not_le] at special
  rcases special with (control | rfl) | rfl
  · have listed := List.mem_map_of_mem (f := Char.ofNat) (List.mem_range.2 control)
    rw [Char.ofNat_toNat] at listed
    exact List.mem_cons_of_mem _ (List.mem_cons_of_mem _ listed)
  · exact List.mem_cons_self
  · exact List.mem_cons_of_mem _ List.mem_cons_self

/-- An escape begins with a backslash and is visible. -/
theorem escape_of_not_isVerbatim {char : Char} (special : isVerbatim char = false) :
    (∃ body, escape char = '\\' :: body) ∧ Text.Visible (escape char) := by
  -- Boolean, since a bounded statement may be decided by going through all characters there are.
  have table : (specials.all fun listed => (escape listed).head? == some '\\' &&
      (escape listed).all fun inside => decide (0x20 ≤ inside.toNat)) = true := by
    decide +kernel
  have row := List.all_eq_true.1 table char (mem_specials special)
  simp only [Bool.and_eq_true, beq_iff_eq, List.all_eq_true, decide_eq_true_eq] at row
  exact ⟨List.head?_eq_some_iff.1 row.1, row.2⟩

/-- No character is written as the beginning of what another one is written as. -/
theorem eq_of_escape_isPrefix {char other : Char} (front : escape char <+: escape other) :
    char = other := by
  have table : (specials.all fun listed => specials.all fun otherListed =>
      !(escape listed).isPrefixOf (escape otherListed) || listed == otherListed) = true := by
    decide +kernel
  have notBackslash : isVerbatim '\\' = false := by decide
  cases verbatim : isVerbatim char with
  | true =>
      rw [escape_of_isVerbatim verbatim] at front
      cases otherVerbatim : isVerbatim other with
      | true =>
          rw [escape_of_isVerbatim otherVerbatim] at front
          exact (List.cons_prefix_cons.1 front).1
      | false =>
          obtain ⟨body, begins⟩ := (escape_of_not_isVerbatim otherVerbatim).1
          rw [begins] at front
          rw [(List.cons_prefix_cons.1 front).1, notBackslash] at verbatim
          cases verbatim
  | false =>
      obtain ⟨body, begins⟩ := (escape_of_not_isVerbatim verbatim).1
      cases otherVerbatim : isVerbatim other with
      | true =>
          rw [begins, escape_of_isVerbatim otherVerbatim] at front
          rw [← (List.cons_prefix_cons.1 front).1, notBackslash] at otherVerbatim
          cases otherVerbatim
      | false =>
          have row := List.all_eq_true.1 table char (mem_specials verbatim)
          have entry := List.all_eq_true.1 row other (mem_specials otherVerbatim)
          rw [List.isPrefixOf_iff_prefix.2 front] at entry
          exact beq_iff_eq.1 entry

/-- Nothing that a character is written as begins with a bare quote. -/
theorem exists_escape_eq (char : Char) :
    ∃ first body, escape char = first :: body ∧ first ≠ '"' := by
  cases verbatim : isVerbatim char with
  | true =>
      refine ⟨char, [], escape_of_isVerbatim verbatim, ?_⟩
      intro quote
      rw [quote] at verbatim
      exact absurd verbatim (by decide)
  | false =>
      obtain ⟨body, begins⟩ := (escape_of_not_isVerbatim verbatim).1
      exact ⟨'\\', body, begins, by decide⟩

/-- The characters of a string and its end can be told from the text behind the opening quote. -/
theorem flatMap_escape_append_inj {left right rest other : List Char}
    (same : left.flatMap escape ++ '"' :: rest = right.flatMap escape ++ '"' :: other) :
    left = right ∧ rest = other := by
  have notEnd : ∀ {char : Char} {text behind tail : List Char},
      '"' :: tail ≠ (char :: text).flatMap escape ++ behind := by
    intro char text behind tail equal
    obtain ⟨first, body, begins, bare⟩ := exists_escape_eq char
    rw [List.flatMap_cons, begins, List.append_assoc] at equal
    exact bare (List.cons.inj equal).1.symm
  induction left generalizing right with
  | nil =>
      cases right with
      | nil => exact ⟨rfl, (List.cons.inj same).2⟩
      | cons char right => exact absurd same notEnd
  | cons char left ih =>
      cases right with
      | nil => exact absurd same.symm notEnd
      | cons otherChar right =>
          rw [List.flatMap_cons, List.flatMap_cons, List.append_assoc, List.append_assoc] at same
          -- Both begin the same text, so one of the two begins the other.
          have front := List.prefix_append (escape char) (left.flatMap escape ++ '"' :: rest)
          rw [same] at front
          have equal : char = otherChar := by
            rcases List.prefix_or_prefix_of_prefix front (List.prefix_append _ _) with front | front
            · exact eq_of_escape_isPrefix front
            · exact (eq_of_escape_isPrefix front).symm
          rw [equal] at same
          obtain ⟨tail, behind⟩ := ih (List.append_cancel_left same)
          exact ⟨congrArg₂ List.cons equal tail, behind⟩

theorem readable_string : Readable string := by
  constructor
  case begins =>
    intro text rest stopped
    cases stopped with
    | intro delimiter => exact absurd delimiter (by decide)
  case unique =>
    intro left right rest other _ _ same
    rw [string, string, List.append_assoc, List.append_assoc] at same
    exact flatMap_escape_append_inj (List.cons.inj same).2

/-! ## Arrays and members -/

/-- A list joined by a separator is its first item, and the separator in front of each other one. -/
theorem intercalate_cons (separator : Char) (item : List Char) (items : List (List Char)) :
    [separator].intercalate (item :: items) =
      item ++ items.flatMap fun following => separator :: following := by
  induction items generalizing item with
  | nil => simp [List.intercalate]
  | cons following items ih =>
      have joined : [separator].intercalate (item :: following :: items) =
          item ++ separator :: [separator].intercalate (following :: items) := rfl
      rw [joined, ih, List.flatMap_cons, List.cons_append]

/-- Behind an item there is a comma or the end of the array. -/
theorem delimited_flatMap {α : Type} {write : α → List Char} (items : List α)
    (behind : List Char) :
    Delimited ((items.flatMap fun item => ',' :: write item) ++ ']' :: behind) := by
  cases items with
  | nil => exact .intro rfl
  | cons item items => exact .intro rfl

namespace Readable

variable {α : Type} {write : α → List Char} (readable : Readable write)
include readable

/-- The items behind the first one and the end of an array can be told from the text. -/
theorem flatMap_append_inj {left right : List α} {rest other : List Char}
    (same : (left.flatMap fun item => ',' :: write item) ++ ']' :: rest =
      (right.flatMap fun item => ',' :: write item) ++ ']' :: other) :
    left = right ∧ rest = other := by
  induction left generalizing right with
  | nil =>
      cases right with
      | nil => exact ⟨rfl, (List.cons.inj same).2⟩
      | cons item right => exact absurd (List.cons.inj same).1 (by decide)
  | cons item left ih =>
      cases right with
      | nil => exact absurd (List.cons.inj same).1 (by decide)
      | cons otherItem right =>
          rw [List.flatMap_cons, List.flatMap_cons, List.append_assoc, List.append_assoc] at same
          obtain ⟨head, tail⟩ := readable.unique (delimited_flatMap left rest)
            (delimited_flatMap right other) (List.cons.inj same).2
          obtain ⟨items, behind⟩ := ih tail
          exact ⟨congrArg₂ List.cons head items, behind⟩

theorem array : Readable fun items : List α => Json.array (items.map write) := by
  have split : ∀ (item : α) (items : List α) (behind : List Char),
      Json.array ((item :: items).map write) ++ behind = '[' :: (write item ++
        ((items.flatMap fun following => ',' :: write following) ++ ']' :: behind)) := by
    intro item items behind
    rw [Json.array, List.map_cons, intercalate_cons, List.flatMap_map]
    simp
  constructor
  case begins =>
    intro items rest stopped
    cases stopped with
    | intro delimiter => exact absurd delimiter (by decide)
  case unique =>
    intro left right rest other _ _ same
    cases left with
    | nil =>
        cases right with
        | nil => exact ⟨rfl, List.append_cancel_left same⟩
        | cons item right =>
            rw [split] at same
            exact absurd (.intro rfl) ((List.cons.inj same).2 ▸ readable.begins item _)
    | cons item left =>
        cases right with
        | nil =>
            rw [split] at same
            exact absurd (.intro rfl) ((List.cons.inj same).2.symm ▸ readable.begins item _)
        | cons otherItem right =>
            rw [split, split] at same
            obtain ⟨head, tail⟩ := readable.unique (delimited_flatMap left rest)
              (delimited_flatMap right other) (List.cons.inj same).2
            obtain ⟨items, behind⟩ := readable.flatMap_append_inj tail
            exact ⟨congrArg₂ List.cons head items, behind⟩

/-- A member can be read if its value can, whatever the key. -/
theorem member (key : String) : Readable fun value => Json.member key (write value) := by
  constructor
  case begins =>
    intro value rest stopped
    cases stopped with
    | intro delimiter => exact absurd delimiter (by decide)
  case unique =>
    intro left right rest other stop otherStop same
    rw [Json.member, Json.member, List.append_assoc, List.append_assoc] at same
    exact readable.unique stop otherStop (List.cons.inj (List.append_cancel_left same)).2

end Readable

/-! ## Visible text -/

theorem visible_of_plain {text : List Char} (plain : ∀ char ∈ text, Text.isPlain char = true) :
    Text.Visible text := by
  have table : ∀ code : Fin 0x20, Text.isPlain (Char.ofNat code) = false := by decide
  intro char member
  by_contra control
  rw [Nat.not_le] at control
  have other := table ⟨char.toNat, control⟩
  rw [Char.ofNat_toNat, plain char member] at other
  cases other

theorem visible_escape (char : Char) : Text.Visible (escape char) := by
  cases verbatim : isVerbatim char with
  | false => exact (escape_of_not_isVerbatim verbatim).2
  | true =>
      rw [escape_of_isVerbatim verbatim]
      simp only [isVerbatim, Bool.and_eq_true, decide_eq_true_eq] at verbatim
      intro inside member
      rw [List.mem_singleton.1 member]
      exact verbatim.1.1

theorem visible_nat (number : Nat) : Text.Visible (nat number) :=
  visible_of_plain (Text.Decimal.spells_ofNat number).plain

theorem visible_int (number : Int) : Text.Visible (int number) :=
  visible_of_plain (Text.Decimal.spellsSigned_ofInt number).plain

theorem visible_string (text : List Char) : Text.Visible (string text) := by
  have body : ∀ inside ∈ text.flatMap escape, 0x20 ≤ inside.toNat := by
    intro inside member
    obtain ⟨char, _, escaped⟩ := List.mem_flatMap.1 member
    exact visible_escape char inside escaped
  have quote : 0x20 ≤ '"'.toNat := by decide
  rw [string, Text.Visible, List.forall_mem_append, List.forall_mem_cons]
  exact ⟨⟨quote, body⟩, List.forall_mem_singleton.2 quote⟩

theorem visible_member (key : String) {value : List Char} (visible : Text.Visible value) :
    Text.Visible (member key value) := by
  rw [member, Text.Visible, List.forall_mem_append, List.forall_mem_cons]
  exact ⟨visible_string _, by decide, visible⟩

theorem visible_intercalate {items : List (List Char)}
    (visible : ∀ item ∈ items, Text.Visible item) : Text.Visible ([','].intercalate items) := by
  cases items with
  | nil => exact List.forall_mem_nil _
  | cons item items =>
      obtain ⟨first, others⟩ := List.forall_mem_cons.1 visible
      rw [intercalate_cons, Text.Visible, List.forall_mem_append]
      refine ⟨first, ?_⟩
      intro char inside
      obtain ⟨following, member, held⟩ := List.mem_flatMap.1 inside
      rcases List.mem_cons.1 held with rfl | held
      · decide
      · exact others following member char held

/-- Items joined by commas between brackets of any kind. -/
theorem visible_enclosed {opening closing : Char} {items : List (List Char)}
    (opened : 0x20 ≤ opening.toNat) (closed : 0x20 ≤ closing.toNat)
    (visible : ∀ item ∈ items, Text.Visible item) :
    Text.Visible (opening :: [','].intercalate items ++ [closing]) := by
  rw [Text.Visible, List.forall_mem_append, List.forall_mem_cons]
  exact ⟨⟨opened, visible_intercalate visible⟩, List.forall_mem_singleton.2 closed⟩

theorem visible_array {items : List (List Char)} (visible : ∀ item ∈ items, Text.Visible item) :
    Text.Visible (array items) :=
  visible_enclosed (by decide) (by decide) visible

theorem visible_object {members : List (List Char)}
    (visible : ∀ member ∈ members, Text.Visible member) : Text.Visible (object members) :=
  visible_enclosed (by decide) (by decide) visible

end BleBeacon.Json
