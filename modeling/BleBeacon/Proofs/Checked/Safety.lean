import BleBeacon.Layout.Compile
import BleBeacon.Proofs.Checked.Filters

/-!
# Compiled layouts never fault

Comparing a filter with an advertisement walks with a cursor and reads the company identifier by
indices, whatever the filter is. With this every step after compiling a layout is there in checked
operations, and because a compiled layout is within its bounds, none of them faults.
-/

namespace BleBeacon

/-! ## Comparing filters -/

def AdStructure.companyIdChecked (element : AdStructure) : Checked (Option UInt16) :=
  if element.adType ≠ AdType.manufacturerData ∨ element.data.length < 2 then
    .ok none
  else do
    let low ← Checked.get element.data 0
    let high ← Checked.get element.data 1
    return some (Bytes.word [high, low]).toUInt16

theorem AdStructure.companyIdChecked_eq (element : AdStructure) :
    element.companyIdChecked = .ok element.companyId := by
  obtain ⟨adType, data⟩ := element
  unfold companyIdChecked companyId
  by_cases manufacturer : adType = AdType.manufacturerData
  · match data with
    | [] | [_] => simp [manufacturer]
    | low :: high :: rest => simp [manufacturer, Checked.get, pure, Except.pure]
  · rw [if_pos (.inl manufacturer), if_neg manufacturer]

def FilterKey.selectsChecked (key : FilterKey) (element : AdStructure) : Checked Bool :=
  match key with
  | manufacturer id => return (← element.companyIdChecked) == some id
  | service uuid => .ok ((service uuid).selects element)

theorem FilterKey.selectsChecked_eq (key : FilterKey) (element : AdStructure) :
    key.selectsChecked element = .ok (key.selects element) := by
  cases key with
  | manufacturer id =>
      rw [selectsChecked, element.companyIdChecked_eq]
      rfl
  | service uuid => rfl

namespace ScanFilter

/-- The structure itself, if it is keyed right and matches. -/
def matchedChecked (filter : ScanFilter) (element : AdStructure) :
    Checked (Option AdStructure) := do
  let selected ← filter.key.selectsChecked element
  return if selected && filter.acceptsPayload element.data then some element else none

def acceptsChecked (filter : ScanFilter) (advertisement : List UInt8) : Checked Bool :=
  return (← (Advertisement.Cursor.start advertisement).findSome? filter.matchedChecked).isSome

theorem matchedChecked_eq (filter : ScanFilter) (element : AdStructure) :
    filter.matchedChecked element = .ok (Option.guard (fun element =>
      filter.key.selects element && filter.acceptsPayload element.data) element) := by
  rw [matchedChecked, filter.key.selectsChecked_eq]
  rfl

theorem acceptsChecked_eq (filter : ScanFilter) (advertisement : List UInt8) :
    filter.acceptsChecked advertisement = .ok (filter.accepts advertisement) := by
  rw [acceptsChecked, Advertisement.Cursor.findSome?_eq filter.matchedChecked_eq,
    List.findSome?_guard]
  exact congrArg Except.ok List.isSome_find?

end ScanFilter

namespace Layout

/-! ## Compiled layouts -/

/-- A layout compiled from a text is within its bounds. So neither its text, nor what it reads from
any advertisement, nor its filters for any identifiers and prefixes, nor comparing a filter with any
advertisement needs an operation outside of its range. -/
theorem no_fault_of_parse {text : List Char} {layout : Layout}
    (parsed : parse text = .ok layout) :
    layout.WellFormed ∧
    layout.textChecked = .ok layout.text ∧
    (∀ advertisement, layout.decodeChecked advertisement = .ok (layout.decode advertisement)) ∧
    (∀ ids prefixes,
      (layout.scanFiltersChecked ids prefixes).run = .ok (layout.scanFilters ids prefixes)) ∧
    ∀ (filter : ScanFilter) (advertisement : List UInt8),
      filter.acceptsChecked advertisement = .ok (filter.accepts advertisement) := by
  have bounds := wellFormed_of_parse parsed
  refine ⟨bounds, textChecked_eq bounds, decodeChecked_eq bounds, ?_,
    ScanFilter.acceptsChecked_eq⟩
  intro ids prefixes
  rw [scanFiltersChecked_eq bounds]
  rfl

theorem no_fault_of_parse_iBeacon :
    ∃ layout, parse "m:2-3=0215,i:4-5,p:6-6".toList = .ok layout ∧
      layout.textChecked = .ok "m:2-3=0215,i:4-5,p:6-6".toList ∧
      layout.decodeChecked [8, 0xFF, 0x4C, 0, 2, 0x15, 0xAB, 0xCD, 0xC5] =
        .ok (some ⟨0x0215, [.number 0xABCD], [], some (-59)⟩) ∧
      (layout.scanFiltersChecked [0x004C] [[0xAB]]).run =
        .ok (.ok [⟨.manufacturer 0x004C, [0, 0, 2, 0x15, 0xAB], [0, 0, 0xFF, 0xFF, 0xFF], 0⟩]) := by
  have parsed : parse "m:2-3=0215,i:4-5,p:6-6".toList = .ok
      { matcher := some ⟨⟨2, 3, false⟩, 0x0215⟩, identifiers := [⟨4, 5, false⟩],
        power := some ⟨⟨6, 6, false⟩, none⟩ } := by
    rfl
  obtain ⟨_, written, read, filters, _⟩ := no_fault_of_parse parsed
  have walk : Advertisement.structures [8, 0xFF, 0x4C, 0, 2, 0x15, 0xAB, 0xCD, 0xC5] =
      [⟨0xFF, [0x4C, 0, 2, 0x15, 0xAB, 0xCD, 0xC5]⟩] := by
    simp [Advertisement.structures, Advertisement.next]
  refine ⟨_, parsed, written.trans ?_, (read _).trans ?_, (filters _ _).trans ?_⟩
  · rfl
  · rw [decode, walk]
    rfl
  · rfl

end Layout

end BleBeacon
