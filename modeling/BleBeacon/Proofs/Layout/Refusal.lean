import BleBeacon.Proofs.Layout.CanonicalText

/-!
# Refused texts

Tokens are added until one is refused, so a refused text is blamed on the first token that does not
compile behind those before it, and nothing after that token is looked at. The token is refused for a
fault of its own, which it also has without the tokens before it, or because these have taken the
place of its kind: the only one, if the kind does not repeat, else all eight.
-/

namespace BleBeacon

open Text

/-! ## The longest beginning within a number of bytes -/

/-- The longest beginning of a text, in whole characters, that fits the 64 bytes of an error. -/
structure Text.IsExcerpt (text front : List Char) : Prop where
  starts : front <+: text
  byteLength_le : byteLength front ≤ 64
  longest : ∀ other, other <+: text → byteLength other ≤ 64 → other <+: front

theorem LayoutError.isExcerpt_blame (token : List Char) (fault : LayoutFault) :
    IsExcerpt token (blame token fault).token :=
  ⟨excerpt_isPrefix _ _, byteLength_excerpt_le _ _, fun _ starts short =>
    isPrefix_excerpt starts short⟩

namespace Layout

/-! ## Tokens of any text -/

theorem isToken_of_mem {text token : List Char} (member : token ∈ tokens text) :
    IsToken token := by
  obtain ⟨trimmed, nonempty⟩ := List.mem_filter.1 member
  obtain ⟨piece, cut, rfl⟩ := List.mem_map.1 trimmed
  have trims := trims_trim piece
  exact ⟨by simpa using nonempty, trims.trim_eq, fun inside =>
    separator_notMem_of_mem_splitOn cut (trims.mem inside)⟩

theorem IsToken.tokens_eq {token : List Char} (proper : IsToken token) :
    tokens token = [token] := by
  have alone := @tokens_intercalate [token] (List.cons_ne_nil _ _) (by simpa using proper)
  simpa using alone

theorem parse_of_tokens {text : List Char} (some : tokens text ≠ []) :
    parse text = empty.addAll (tokens text) :=
  if_neg (by simpa using some)

/-! ## The refused token -/

/-- Tokens are added exactly if the first ones are and the others then are. -/
theorem addAll_append_eq_ok_iff {layout final : Layout} {front back : List (List Char)} :
    layout.addAll (front ++ back) = .ok final ↔
      ∃ middle, layout.addAll front = .ok middle ∧ middle.addAll back = .ok final := by
  induction front generalizing layout with
  | nil => simp [addAll]
  | cons token front ih =>
      cases added : layout.add token with
      | error fault => simp [addAll, added]
      | ok extended => simp [addAll, added, ih]

/-- Adding tokens stops at the first one that is refused. -/
theorem addAll_eq_error_iff {layout : Layout} {tokens : List (List Char)} {error : LayoutError} :
    layout.addAll tokens = .error error ↔ ∃ before token after extended fault,
      tokens = before ++ token :: after ∧ layout.addAll before = .ok extended ∧
        extended.add token = .error fault ∧ error = .blame token fault := by
  induction tokens generalizing layout with
  | nil => simp [addAll]
  | cons first rest ih =>
      constructor
      · intro refused
        cases added : layout.add first with
        | error fault =>
            simp only [addAll, added, Except.error.injEq] at refused
            exact ⟨[], first, rest, layout, fault, rfl, rfl, added, refused.symm⟩
        | ok next =>
            simp only [addAll, added] at refused
            obtain ⟨before, token, after, extended, fault, rfl, accepted, stop, rfl⟩ :=
              ih.1 refused
            exact ⟨first :: before, token, after, extended, fault, rfl,
              by simpa only [addAll, added] using accepted, stop, rfl⟩
      · rintro ⟨before, token, after, extended, fault, whole, accepted, stop, rfl⟩
        cases before with
        | nil =>
            obtain ⟨rfl, rfl⟩ := List.cons.inj whole
            cases accepted
            simp only [addAll, stop]
        | cons _ before =>
            obtain ⟨rfl, rfl⟩ := List.cons.inj whole
            cases added : layout.add first with
            | error fault => simp [addAll, added] at accepted
            | ok next =>
                simp only [addAll, added] at accepted ⊢
                exact ih.2 ⟨before, token, after, extended, fault, rfl, accepted, stop, rfl⟩

/-- Tokens compile: the text of them, joined by commas, is that of a layout. -/
def Compiles (tokens : List (List Char)) : Prop :=
  ∃ layout, parse ([','].intercalate tokens) = .ok layout

theorem compiles_iff {tokens : List (List Char)} (some : tokens ≠ [])
    (each : ∀ token ∈ tokens, IsToken token) :
    Compiles tokens ↔ ∃ layout, empty.addAll tokens = .ok layout := by
  have back := tokens_intercalate some each
  rw [Compiles, parse_of_tokens (by rwa [back]), back]

/-- The first token of a list that does not compile behind those before it. -/
structure FirstRefused (tokens before : List (List Char)) (token : List Char) : Prop where
  position : before ++ [token] <+: tokens
  compiles : ∀ front, front <+: before → front ≠ [] → Compiles front
  refused : ¬Compiles (before ++ [token])

/-- Of two beginnings of which the last tokens are refused first, neither ends before the other. -/
theorem FirstRefused.length_le {tokens before other : List (List Char)}
    {token otherToken : List Char} (first : FirstRefused tokens before token)
    (second : FirstRefused tokens other otherToken) : before.length ≤ other.length := by
  by_contra longer
  have start : other ++ [otherToken] <+: before := by
    refine List.prefix_of_prefix_length_le second.position
      ((List.prefix_append _ _).trans first.position) ?_
    rw [List.length_append, List.length_singleton]
    omega
  exact second.refused (first.compiles _ start (by simp))

/-- One token of a list is refused first. -/
theorem FirstRefused.unique {tokens before other : List (List Char)}
    {token otherToken : List Char} (first : FirstRefused tokens before token)
    (second : FirstRefused tokens other otherToken) : before = other ∧ token = otherToken := by
  have whole : before ++ [token] = other ++ [otherToken] := by
    refine (List.prefix_of_prefix_length_le first.position second.position ?_).eq_of_length ?_
    · simpa using first.length_le second
    · simpa using Nat.le_antisymm (first.length_le second) (second.length_le first)
  obtain ⟨same, last⟩ := List.append_inj' whole rfl
  exact ⟨same, List.singleton_inj.1 last⟩

end Layout

/-! ## The fault of the refused token -/

/-- The faults of a token by itself, whatever the layout has already. -/
def LayoutFault.Intrinsic (fault : LayoutFault) : Prop :=
  fault ≠ .duplicateField ∧ fault ≠ .tooManyFields

theorem ByteRange.intrinsic_of_parse {text : List Char} {fault : LayoutFault}
    (refused : ByteRange.parse text = .error fault) : fault.Intrinsic := by
  grind [ByteRange.parse, LayoutFault.Intrinsic]

namespace Token

theorem intrinsic_of_parse {text : List Char} {fault : LayoutFault}
    (refused : Token.parse text = .error fault) : fault.Intrinsic := by
  grind [Token.parse, LayoutFault.Intrinsic, ByteRange.intrinsic_of_parse]

theorem intrinsic_of_serviceUuid {value : List Char} {fault : LayoutFault}
    (refused : serviceUuid value = .error fault) : fault.Intrinsic := by
  grind [serviceUuid, LayoutFault.Intrinsic]

theorem intrinsic_of_field {token : Token} {fault : LayoutFault}
    (refused : token.field = .error fault) : fault.Intrinsic := by
  cases kind : token.kind <;> simp only [Token.field, kind, map_eq_error_iff] at refused
  case matcher => grind [Token.matcher, LayoutFault.Intrinsic]
  case service => grind [Token.service, LayoutFault.Intrinsic, intrinsic_of_serviceUuid]
  case identifier => grind [Token.bareRange, LayoutFault.Intrinsic]
  case data => grind [Token.bareRange, LayoutFault.Intrinsic]
  case power => grind [Token.power, LayoutFault.Intrinsic]

end Token

namespace Layout

/-- Why a layout refuses a token. -/
inductive Refuses (layout : Layout) (text : List Char) : LayoutFault → Prop
  | malformed {fault : LayoutFault} : Token.parse text = .error fault → Refuses layout text fault
  | duplicate {token : Token} : Token.parse text = .ok token →
      token.kind.repeats = false → 0 < layout.count token.kind →
      Refuses layout text .duplicateField
  | invalid {token : Token} {fault : LayoutFault} : Token.parse text = .ok token →
      (token.kind.repeats = false → layout.count token.kind = 0) →
      token.field = .error fault → Refuses layout text fault
  | full {token : Token} {field : Field} : Token.parse text = .ok token →
      token.kind.repeats = true → token.field = .ok field →
      token.kind.capacity ≤ layout.count token.kind → Refuses layout text .tooManyFields

theorem add_eq_error_iff {layout : Layout} {text : List Char} {fault : LayoutFault} :
    layout.add text = .error fault ↔ layout.Refuses text fault := by
  constructor
  · intro refused
    unfold add at refused
    split at refused
    · rename_i parsed
      cases refused
      exact .malformed parsed
    · rename_i token parsed
      split at refused
      · rename_i duplicate
        cases refused
        exact .duplicate parsed duplicate.1 duplicate.2
      · rename_i first
        have absent : token.kind.repeats = false → layout.count token.kind = 0 :=
          fun single => Nat.eq_zero_of_not_pos fun present => first ⟨single, present⟩
        split at refused
        · rename_i invalid
          cases refused
          exact .invalid parsed absent invalid
        · rename_i field read
          split at refused
          · cases refused
          · rename_i full
            cases refused
            refine .full parsed ?_ read (Nat.not_lt.1 full)
            by_contra single
            rw [Bool.not_eq_true] at single
            rw [capacity_of_single single, absent single] at full
            omega
  · intro refuses
    cases refuses with
    | malformed parsed => simp only [add, parsed]
    | duplicate parsed single present =>
        simp only [add, parsed, if_pos (And.intro single present)]
    | invalid parsed absent invalid =>
        simp only [add, parsed, invalid]
        rw [if_neg fun duplicate => (absent duplicate.1).not_gt duplicate.2]
    | full parsed repeats read full =>
        simp only [add, parsed, read, if_neg (Nat.not_lt.2 full)]
        rw [if_neg fun duplicate => Bool.false_ne_true (duplicate.1.symm.trans repeats)]

/-- A fault that a token has by itself it also has without what the layout has. -/
theorem Refuses.alone {layout : Layout} {text : List Char} {fault : LayoutFault}
    (refuses : layout.Refuses text fault) (intrinsic : fault.Intrinsic) :
    empty.Refuses text fault := by
  cases refuses with
  | malformed parsed => exact .malformed parsed
  | duplicate => exact absurd rfl intrinsic.1
  | @invalid token _ parsed _ invalid =>
      have absent : empty.count token.kind = 0 := by
        rw [← length_fieldsOf, fieldsOf_empty, List.length_nil]
      exact .invalid parsed (fun _ => absent) invalid
  | full => exact absurd rfl intrinsic.2

/-! ## Letters of earlier tokens -/

/-- The token begins with a letter and a colon. -/
def hasLetter (letter : Char) (token : List Char) : Bool :=
  [letter, ':'].isPrefixOf token

theorem hasLetter_of_parse {text : List Char} {token : Token}
    (parsed : Token.parse text = .ok token) : hasLetter token.kind.letter text = true := by
  obtain ⟨range, _, rfl⟩ := Token.parse_sound parsed
  simp [hasLetter]

theorem hasLetter_of_spelling {text : List Char} {field : Field}
    (spelled : Field.Spelling text field) (kind : FieldKind) :
    hasLetter kind.letter text = decide (field.kind = kind) := by
  cases spelled <;> cases kind <;> rfl

/-- The fields of a kind are as many as the tokens with its letter. -/
theorem count_eq_countP {before : List (List Char)} {layout : Layout}
    (accepted : empty.addAll before = .ok layout) (kind : FieldKind) :
    layout.count kind = before.countP (hasLetter kind.letter) := by
  obtain ⟨_, fields, spelled, each⟩ := (addAll_eq_ok_iff fits_empty).1 accepted
  rw [← length_fieldsOf, each kind, fieldsOf_empty, List.nil_append]
  exact (countP_eq_length_filter (fun part => hasLetter_of_spelling part kind) spelled).symm

theorem exists_earlier_of_duplicate {before : List (List Char)} {layout : Layout}
    {text : List Char} (accepted : empty.addAll before = .ok layout)
    (refuses : layout.Refuses text .duplicateField) :
    ∃ letter ∈ ['m', 's', 'p'], hasLetter letter text ∧
      ∃ earlier ∈ before, hasLetter letter earlier := by
  cases refuses with
  | malformed parsed => exact absurd rfl (Token.intrinsic_of_parse parsed).1
  | invalid _ _ invalid => exact absurd rfl (Token.intrinsic_of_field invalid).1
  | @duplicate token parsed single present =>
      rw [count_eq_countP accepted, List.countP_pos_iff] at present
      refine ⟨token.kind.letter, ?_, hasLetter_of_parse parsed, present⟩
      cases kind : token.kind <;> simp_all [FieldKind.repeats, FieldKind.letter]

theorem eight_earlier_of_full {before : List (List Char)} {layout : Layout}
    {text : List Char} (accepted : empty.addAll before = .ok layout)
    (refuses : layout.Refuses text .tooManyFields) :
    ∃ letter ∈ ['i', 'd'], hasLetter letter text ∧ before.countP (hasLetter letter) = 8 := by
  cases refuses with
  | malformed parsed => exact absurd rfl (Token.intrinsic_of_parse parsed).2
  | invalid _ _ invalid => exact absurd rfl (Token.intrinsic_of_field invalid).2
  | @full token _ parsed repeats _ full =>
      have fits := ((addAll_eq_ok_iff fits_empty).1 accepted).1 token.kind
      rw [count_eq_countP accepted] at full fits
      have number := Nat.le_antisymm fits full
      refine ⟨token.kind.letter, ?_, hasLetter_of_parse parsed, ?_⟩
      · cases kind : token.kind <;> simp_all [FieldKind.repeats, FieldKind.letter]
      · rw [number]
        cases kind : token.kind <;> simp_all [FieldKind.repeats] <;> rfl

/-! ## Refused texts -/

theorem firstRefused {tokens before after : List (List Char)} {token : List Char}
    {layout : Layout} {fault : LayoutFault} (each : ∀ part ∈ tokens, IsToken part)
    (whole : tokens = before ++ token :: after) (accepted : empty.addAll before = .ok layout)
    (stop : layout.add token = .error fault) : FirstRefused tokens before token := by
  have position : before ++ [token] <+: tokens := ⟨after, by simp [whole]⟩
  refine ⟨position, ?_, ?_⟩
  · rintro front ⟨back, rfl⟩ some
    obtain ⟨middle, added, _⟩ := addAll_append_eq_ok_iff.1 accepted
    have starts : front <+: tokens := ⟨back ++ token :: after, by simp [whole]⟩
    exact (compiles_iff some fun part member => each part (starts.mem member)).2 ⟨middle, added⟩
  · rw [compiles_iff (by simp) fun part member => each part (position.mem member)]
    rintro ⟨final, added⟩
    have refused := addAll_eq_error_iff.2
      ⟨before, token, [], layout, fault, rfl, accepted, stop, rfl⟩
    exact absurd (added.symm.trans refused) nofun

/-- A refused text is blamed on its first token that does not compile behind those before it, cut to
the 64 bytes of an error, and so is every other text that begins with the same tokens. A fault that is
not one of the token alone means that earlier tokens have taken the place of its kind. A text without
tokens is blamed as a whole. -/
theorem parse_blames_first_refused (text : List Char) : ∃ tokens,
    (∀ other, TokensOf text other ↔ other = tokens) ∧
    (tokens = [] →
      ∃ front, IsExcerpt text front ∧ parse text = .error ⟨front, .emptyLayout⟩) ∧
    (tokens ≠ [] → ∀ error, parse text = .error error → ∃ before token,
      FirstRefused tokens before token ∧ IsExcerpt token error.token ∧
      (∀ other otherTokens, TokensOf other otherTokens →
        before ++ [token] <+: otherTokens → parse other = .error error) ∧
      (error.fault = .duplicateField → ∃ letter ∈ ['m', 's', 'p'],
        hasLetter letter token ∧ ∃ earlier ∈ before, hasLetter letter earlier) ∧
      (error.fault = .tooManyFields → ∃ letter ∈ ['i', 'd'],
        hasLetter letter token ∧ before.countP (hasLetter letter) = 8) ∧
      (error.fault ≠ .duplicateField → error.fault ≠ .tooManyFields →
        parse token = .error error)) := by
  refine ⟨tokens text, fun _ => tokensOf_iff, ?_, ?_⟩
  · intro none
    exact ⟨_, LayoutError.isExcerpt_blame text .emptyLayout, if_pos (by simp [none])⟩
  · intro some error refused
    rw [parse_of_tokens some] at refused
    obtain ⟨before, token, after, layout, fault, whole, accepted, stop, rfl⟩ :=
      addAll_eq_error_iff.1 refused
    have refuses := add_eq_error_iff.1 stop
    have proper : IsToken token := @isToken_of_mem text token (by simp [whole])
    refine ⟨before, token, firstRefused (fun _ => isToken_of_mem) whole accepted stop,
      LayoutError.isExcerpt_blame token fault, ?_, ?_, ?_, ?_⟩
    · rintro other _ found ⟨rest, rfl⟩
      have same := tokensOf_iff.1 found
      rw [parse_of_tokens (by simp [← same])]
      exact addAll_eq_error_iff.2
        ⟨before, token, rest, layout, fault, by simp [← same], accepted, stop, rfl⟩
    · rintro rfl
      exact exists_earlier_of_duplicate accepted refuses
    · rintro rfl
      exact eight_earlier_of_full accepted refuses
    · intro single room
      have own := add_eq_error_iff.2 (refuses.alone ⟨single, room⟩)
      rw [parse_of_tokens (by simp [proper.tokens_eq]), proper.tokens_eq]
      simp only [addAll, own]

/-- A text with a second matcher as the third of four tokens, among empty pieces and white space. -/
def secondMatcherText : List Char :=
  "m:2-3=0215, ,\u2003i:4-4,,m:5-5=01\t, x".toList

def secondMatcherTokens : List (List Char) :=
  ["m:2-3=0215", "i:4-4", "m:5-5=01", "x"].map String.toList

theorem parse_blames_first_refused_third :
    TokensOf secondMatcherText secondMatcherTokens ∧
      parse secondMatcherText = .error ⟨"m:5-5=01".toList, .duplicateField⟩ ∧
      ∀ other otherTokens, TokensOf other otherTokens →
        secondMatcherTokens.take 3 <+: otherTokens →
        parse other = .error ⟨"m:5-5=01".toList, .duplicateField⟩ := by
  have pieces : TokensOf secondMatcherText secondMatcherTokens := tokensOf_iff.2 (by decide)
  have refused : parse secondMatcherText = .error ⟨"m:5-5=01".toList, .duplicateField⟩ := by
    decide
  have third : FirstRefused secondMatcherTokens (secondMatcherTokens.take 2) "m:5-5=01".toList :=
    @firstRefused _ _ ["x".toList] _
      { matcher := some ⟨⟨2, 3, false⟩, 0x0215⟩, identifiers := [⟨4, 4, false⟩] } .duplicateField
      (fun _ member => isToken_of_mem (tokensOf_iff.1 pieces ▸ member)) rfl (by decide) (by decide)
  obtain ⟨tokens, only, _, blamed⟩ := parse_blames_first_refused secondMatcherText
  cases (only _).1 pieces
  obtain ⟨before, token, first, _, others, _⟩ := blamed (by decide) _ refused
  obtain ⟨rfl, rfl⟩ := first.unique third
  exact ⟨pieces, refused, others⟩

end Layout

end BleBeacon
