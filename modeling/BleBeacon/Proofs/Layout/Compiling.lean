import BleBeacon.Proofs.Layout.Pieces
import BleBeacon.Proofs.Layout.Tokens
import BleBeacon.Proofs.Pairing

/-!
# Layouts are compiled by the grammar

A layout is the list of its fields of each kind. Adding the field of a token appends to the list of
its kind while there is room, so compiling tokens succeeds exactly if each is a spelling of a field
and no kind has more of them than a layout takes. The layout then has the fields of its tokens, in
order.
-/

namespace BleBeacon

namespace Layout

/-! ## The fields of a kind -/

/-- The fields of a kind, in order. -/
def fieldsOf (layout : Layout) : FieldKind → List Field
  | .matcher => layout.matcher.toList.map .matcher
  | .service => layout.service.toList.map .service
  | .identifier => layout.identifiers.map .identifier
  | .data => layout.dataFields.map .data
  | .power => layout.power.toList.map .power

@[simp] theorem fieldsOf_empty (kind : FieldKind) : empty.fieldsOf kind = [] := by
  cases kind <;> rfl

@[simp] theorem length_fieldsOf (layout : Layout) (kind : FieldKind) :
    (layout.fieldsOf kind).length = layout.count kind := by
  cases kind <;> simp [fieldsOf, count]

theorem fields_eq_flatMap (layout : Layout) :
    layout.fields = FieldKind.all.flatMap layout.fieldsOf := by
  simp [fields, fieldsOf, FieldKind.all]

/-- The fields of each kind make up a layout. -/
theorem ext_fieldsOf {left right : Layout}
    (same : ∀ kind, left.fieldsOf kind = right.fieldsOf kind) : left = right := by
  rw [← foldl_insert_fields left, ← foldl_insert_fields right, fields_eq_flatMap left,
    fields_eq_flatMap right, funext same]

theorem filter_fields (layout : Layout) (kind : FieldKind) :
    (layout.fields.filter fun field => field.kind = kind) = layout.fieldsOf kind := by
  cases kind <;> simp [fields, fieldsOf, List.filter_map, Function.comp_def, Field.kind]

/-- A field is appended to those of its kind, if there is room. -/
theorem fieldsOf_insert {layout : Layout} {field : Field}
    (room : layout.count field.kind < field.kind.capacity) (kind : FieldKind) :
    (layout.insert field).fieldsOf kind =
      layout.fieldsOf kind ++ if field.kind = kind then [field] else [] := by
  have none_of_room : ∀ {α : Type} {part : Option α}, part.toList.length < 1 → part = none := by
    intro α part short
    cases part <;> simp_all
  cases field with
  | matcher matcher =>
      have absent : layout.matcher = none := none_of_room room
      cases kind <;> simp [insert, fieldsOf, Field.kind, absent]
  | service service =>
      have absent : layout.service = none := none_of_room room
      cases kind <;> simp [insert, fieldsOf, Field.kind, absent]
  | identifier range => cases kind <;> simp [insert, fieldsOf, Field.kind]
  | data range => cases kind <;> simp [insert, fieldsOf, Field.kind]
  | power power =>
      have absent : layout.power = none := none_of_room room
      cases kind <;> simp [insert, fieldsOf, Field.kind, absent]

/-! ## Adding tokens -/

theorem capacity_of_single {kind : FieldKind} (single : kind.repeats = false) :
    kind.capacity = 1 := by
  cases kind with
  | matcher | service | power => rfl
  | identifier | data => exact absurd single (by decide)

/-- A token is added exactly if it is a spelling of a field for which there is room. -/
theorem add_eq_ok_iff {layout extended : Layout} {text : List Char} :
    layout.add text = .ok extended ↔ ∃ field, Field.Spelling text field ∧
      layout.count field.kind < field.kind.capacity ∧ extended = layout.insert field := by
  constructor
  · intro added
    unfold add at added
    split at added
    · simp at added
    · rename_i token parsed
      split at added
      · simp at added
      · split at added
        · simp at added
        · rename_i field read
          split at added
          · rename_i room
            cases added
            rw [← Token.kind_of_field read] at room
            exact ⟨field, Token.read_iff_spelling.1 ⟨token, parsed, read⟩, room, rfl⟩
          · simp at added
  · rintro ⟨field, spelled, room, rfl⟩
    obtain ⟨token, parsed, read⟩ := Token.read_iff_spelling.2 spelled
    have kind := Token.kind_of_field read
    rw [kind] at room
    have first : ¬(token.kind.repeats = false ∧ 0 < layout.count token.kind) := by
      rintro ⟨single, present⟩
      rw [capacity_of_single single] at room
      omega
    simp only [add, parsed, if_neg first, read, if_pos room]

/-- The number of fields of every kind is within its capacity. -/
def Fits (layout : Layout) : Prop :=
  ∀ kind : FieldKind, layout.count kind ≤ kind.capacity

theorem count_insert {layout : Layout} {field : Field}
    (room : layout.count field.kind < field.kind.capacity) (kind : FieldKind) :
    (layout.insert field).count kind = layout.count kind + if field.kind = kind then 1 else 0 := by
  rw [← length_fieldsOf, fieldsOf_insert room, List.length_append, length_fieldsOf]
  split <;> rfl

theorem Fits.insert {layout : Layout} (fits : layout.Fits) {field : Field}
    (room : layout.count field.kind < field.kind.capacity) : (layout.insert field).Fits := by
  intro kind
  rw [count_insert room]
  split
  · rename_i same
    exact same ▸ room
  · exact fits kind

/-- Tokens are added exactly if they spell fields that fit, and the fields of a kind follow those that
were there. -/
theorem addAll_eq_ok_iff {layout final : Layout} {tokens : List (List Char)} (fits : layout.Fits) :
    layout.addAll tokens = .ok final ↔ final.Fits ∧ ∃ fields,
      List.Forall₂ Field.Spelling tokens fields ∧ ∀ kind, final.fieldsOf kind =
        layout.fieldsOf kind ++ fields.filter fun field => field.kind = kind := by
  -- The fields that are there come first, so `fits` is what the induction carries along.
  induction tokens generalizing layout with
  | nil =>
      simp only [addAll, Except.ok.injEq, List.forall₂_nil_left_iff, exists_eq_left,
        List.filter_nil, List.append_nil]
      constructor
      · rintro rfl
        exact ⟨fits, fun _ => rfl⟩
      · rintro ⟨_, same⟩
        exact (ext_fieldsOf same).symm
  | cons token tokens ih =>
      constructor
      · intro added
        cases first : layout.add token with
        | error fault => simp [addAll, first] at added
        | ok extended =>
            obtain ⟨field, spelled, room, rfl⟩ := add_eq_ok_iff.1 first
            simp only [addAll, first] at added
            obtain ⟨finalFits, fields, rest, each⟩ := (ih (fits.insert room)).1 added
            refine ⟨finalFits, field :: fields, .cons spelled rest, fun kind => ?_⟩
            rw [each kind, fieldsOf_insert room, List.append_assoc, List.filter_cons]
            split <;> simp_all
      · rintro ⟨finalFits, fields, spelled, each⟩
        obtain ⟨field, fields, head, rest, rfl⟩ := List.forall₂_cons_left_iff.1 spelled
        have room : layout.count field.kind < field.kind.capacity := by
          have total := congrArg List.length (each field.kind)
          rw [length_fieldsOf, List.length_append, length_fieldsOf, List.filter_cons,
            if_pos (by simp), List.length_cons] at total
          have bound := finalFits field.kind
          omega
        rw [addAll, add_eq_ok_iff.2 ⟨field, head, room, rfl⟩]
        refine (ih (fits.insert room)).2 ⟨finalFits, fields, rest, fun kind => ?_⟩
        rw [each kind, fieldsOf_insert room, List.append_assoc, List.filter_cons]
        split <;> simp_all

theorem fits_empty : empty.Fits := by
  intro kind
  rw [← length_fieldsOf, fieldsOf_empty]
  exact Nat.zero_le _

/-- The layout of a token list: of each kind, the fields that the tokens spell, in order. -/
def Denotes (tokens : List (List Char)) (layout : Layout) : Prop :=
  ∃ fields, List.Forall₂ Field.Spelling tokens fields ∧
    ∀ kind, layout.fieldsOf kind = fields.filter fun field => field.kind = kind

/-- A text is compiled exactly if its tokens, at least one, spell fields that fit a layout. -/
theorem parse_eq_ok_iff {text : List Char} {layout : Layout} :
    parse text = .ok layout ↔
      tokens text ≠ [] ∧ layout.Fits ∧ Denotes (tokens text) layout := by
  by_cases none : tokens text = []
  · simp [parse, none]
  · rw [parse, if_neg (by simpa using none), addAll_eq_ok_iff fits_empty]
    simp [none, Denotes]

/-! ## The grammar of texts -/

/-- The token lists of layouts: tokens that spell fields, at least one, at most one of them with the
letter of a matcher, a service UUID or a power field, and at most eight with that of an identifier or
a data field. -/
structure Grammatical (tokens : List (List Char)) : Prop where
  nonempty : tokens ≠ []
  spelled : ∀ token ∈ tokens, ∃ field, Field.Spelling token field
  single : ∀ letter ∈ ['m', 's', 'p'], (tokens.countP fun token => token.head? = some letter) ≤ 1
  repeated : ∀ letter ∈ ['i', 'd'], (tokens.countP fun token => token.head? = some letter) ≤ 8

/-- The number of tokens of each kind is within its capacity. -/
theorem forall_countP_le_iff {tokens : List (List Char)} :
    (∀ kind : FieldKind,
      (tokens.countP fun token => token.head? = some kind.letter) ≤ kind.capacity) ↔
      (∀ letter ∈ ['m', 's', 'p'], (tokens.countP fun token => token.head? = some letter) ≤ 1) ∧
        ∀ letter ∈ ['i', 'd'], (tokens.countP fun token => token.head? = some letter) ≤ 8 := by
  simp only [List.mem_cons, List.not_mem_nil, or_false, forall_eq_or_imp, forall_eq]
  constructor
  · intro bound
    exact ⟨⟨bound .matcher, bound .service, bound .power⟩, bound .identifier, bound .data⟩
  · rintro ⟨⟨matcher, service, power⟩, identifier, data⟩ kind
    cases kind with
    | matcher => exact matcher
    | service => exact service
    | identifier => exact identifier
    | data => exact data
    | power => exact power

theorem Grammatical.countP_le {tokens : List (List Char)} (grammatical : Grammatical tokens) :
    ∀ kind : FieldKind,
      (tokens.countP fun token => token.head? = some kind.letter) ≤ kind.capacity :=
  forall_countP_le_iff.2 ⟨grammatical.single, grammatical.repeated⟩

theorem head?_of_spelling {text : List Char} {field : Field}
    (spelled : Field.Spelling text field) : text.head? = some field.kind.letter := by
  cases spelled <;> rfl

theorem letter_injective : Function.Injective FieldKind.letter := by
  intro left right equal
  cases left <;> cases right <;> first | rfl | exact absurd equal (by decide)

/-- A test that tells the spellings of a kind from the others counts the fields of that kind. -/
theorem countP_eq_length_filter {test : List Char → Bool} {kind : FieldKind}
    (tells : ∀ {text : List Char} {field : Field}, Field.Spelling text field →
      test text = decide (field.kind = kind))
    {tokens : List (List Char)} {fields : List Field}
    (spelled : List.Forall₂ Field.Spelling tokens fields) :
    tokens.countP test = (fields.filter fun field => field.kind = kind).length := by
  induction spelled with
  | nil => rfl
  | cons head _ ih =>
      rw [List.countP_cons, ih, List.filter_cons, tells head]
      split <;> rfl

/-- Tokens of a letter spell the fields of its kind. -/
theorem countP_letter {tokens : List (List Char)} {fields : List Field}
    (spelled : List.Forall₂ Field.Spelling tokens fields) (kind : FieldKind) :
    (tokens.countP fun token => token.head? = some kind.letter) =
      (fields.filter fun field => field.kind = kind).length := by
  refine countP_eq_length_filter (fun part => ?_) spelled
  simp [head?_of_spelling part, letter_injective.eq_iff]

/-- Fields that fit behind those of a layout are the further fields of some layout. -/
theorem exists_layout (layout : Layout) (fields : List Field)
    (fits : ∀ kind, layout.count kind + (fields.filter fun field => field.kind = kind).length ≤
      kind.capacity) :
    ∃ final : Layout, ∀ kind, final.fieldsOf kind =
      layout.fieldsOf kind ++ fields.filter fun field => field.kind = kind := by
  induction fields generalizing layout with
  | nil => exact ⟨layout, by simp⟩
  | cons field fields ih =>
      have room : layout.count field.kind < field.kind.capacity := by
        have bound := fits field.kind
        rw [List.filter_cons, if_pos (by simp), List.length_cons] at bound
        omega
      obtain ⟨final, each⟩ := ih (layout.insert field) fun kind => by
        have bound := fits kind
        rw [count_insert room]
        rw [List.filter_cons] at bound
        split at bound <;> simp_all
        omega
      refine ⟨final, fun kind => ?_⟩
      rw [each kind, fieldsOf_insert room, List.append_assoc, List.filter_cons]
      split <;> simp_all

/-- The fields of a layout fit exactly if the tokens that denote it do. -/
theorem Denotes.fits_iff {tokens : List (List Char)} {layout : Layout}
    (denoted : Denotes tokens layout) : layout.Fits ↔ ∀ kind : FieldKind,
      (tokens.countP fun token => token.head? = some kind.letter) ≤ kind.capacity := by
  obtain ⟨fields, spelled, each⟩ := denoted
  refine forall_congr' fun kind => ?_
  rw [countP_letter spelled, ← each kind, length_fieldsOf]

/-- Grammatical tokens denote a layout. -/
theorem Grammatical.exists_denotes {tokens : List (List Char)} (grammatical : Grammatical tokens) :
    ∃ layout, Denotes tokens layout := by
  obtain ⟨fields, spelled⟩ := exists_forall₂_iff.2 grammatical.spelled
  obtain ⟨layout, denoted⟩ := exists_layout empty fields fun kind => by
    rw [← length_fieldsOf, fieldsOf_empty, ← countP_letter spelled]
    simpa using grammatical.countP_le kind
  exact ⟨layout, fields, spelled, by simpa using denoted⟩

theorem parse_eq_ok_iff_grammatical {text : List Char} {layout : Layout} :
    parse text = .ok layout ↔ Grammatical (tokens text) ∧ Denotes (tokens text) layout := by
  rw [parse_eq_ok_iff]
  constructor
  · rintro ⟨nonempty, fits, denoted⟩
    obtain ⟨fields, spelled, _⟩ := id denoted
    obtain ⟨single, repeated⟩ := forall_countP_le_iff.1 (denoted.fits_iff.1 fits)
    exact ⟨⟨nonempty, exists_forall₂_iff.1 ⟨fields, spelled⟩, single, repeated⟩, denoted⟩
  · rintro ⟨grammatical, denoted⟩
    exact ⟨grammatical.nonempty, denoted.fits_iff.2 grammatical.countP_le, denoted⟩

/-- Compiling accepts exactly the texts with grammatical tokens and gives the layout that these
denote. The tokens are the ones between the commas of the text, and it has no others. -/
theorem parse_grammar (text : List Char) :
    ∃ tokens, (∀ other, TokensOf text other ↔ other = tokens) ∧
      ((∃ layout, parse text = .ok layout) ↔ Grammatical tokens) ∧
      ∀ layout, parse text = .ok layout ↔ Grammatical tokens ∧ Denotes tokens layout := by
  refine ⟨tokens text, fun _ => tokensOf_iff, ⟨?_, ?_⟩, fun _ => parse_eq_ok_iff_grammatical⟩
  · rintro ⟨layout, parsed⟩
    exact (parse_eq_ok_iff_grammatical.1 parsed).1
  · intro grammatical
    obtain ⟨layout, denoted⟩ := grammatical.exists_denotes
    exact ⟨layout, parse_eq_ok_iff_grammatical.2 ⟨grammatical, denoted⟩⟩

/-- Three tokens among empty pieces and white space, some of it beyond ASCII. -/
def spacedText : List Char :=
  " m:2-3=02Ff,,\u2003i:4-4l\t, \u3000,p:9-9:-041\u00a0".toList

def spacedTokens : List (List Char) :=
  ["m:2-3=02Ff", "i:4-4l", "p:9-9:-041"].map String.toList

def spacedLayout : Layout where
  matcher := some ⟨⟨2, 3, false⟩, 0x02FF⟩
  identifiers := [⟨4, 4, true⟩]
  power := some ⟨⟨9, 9, false⟩, some (-41)⟩

theorem parse_grammar_spaced :
    TokensOf spacedText spacedTokens ∧ parse spacedText = .ok spacedLayout ∧
      Grammatical spacedTokens ∧ Denotes spacedTokens spacedLayout := by
  have pieces : TokensOf spacedText spacedTokens := tokensOf_iff.2 (by decide)
  have parsed : parse spacedText = .ok spacedLayout := by decide
  obtain ⟨tokens, only, _, each⟩ := parse_grammar spacedText
  cases (only _).1 pieces
  exact ⟨pieces, parsed, (each _).1 parsed⟩

end Layout

end BleBeacon
