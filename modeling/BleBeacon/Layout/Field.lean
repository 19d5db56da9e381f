import BleBeacon.Layout.Basic
import BleBeacon.Text.Hex

/-!
# Fields of a layout

A layout is written as its fields, each named by a letter, separated by commas: first the matcher,
then the service UUID, the identifiers, the data fields and the power field. `Layout.fields` lists
them in this order, `Layout.insert` adds one, and `Layout.text` is the canonical text.
-/

namespace BleBeacon

inductive FieldKind where
  | matcher
  | service
  | identifier
  | data
  | power
  deriving DecidableEq, Repr

namespace FieldKind

def all : List FieldKind := [matcher, service, identifier, data, power]

/-- The letter that a field of this kind starts with. -/
def letter : FieldKind → Char
  | matcher => 'm'
  | service => 's'
  | identifier => 'i'
  | data => 'd'
  | power => 'p'

def ofText? (text : List Char) : Option FieldKind :=
  all.find? fun kind => text == [kind.letter]

/-- Whether a layout may have several fields of this kind. -/
def repeats : FieldKind → Bool
  | identifier | data => true
  | matcher | service | power => false

/-- The most fields of this kind in one layout. -/
def capacity : FieldKind → Nat
  | identifier => Layout.maxIdentifiers
  | data => Layout.maxDataFields
  | matcher | service | power => 1

@[simp] theorem ofText?_letter (kind : FieldKind) : ofText? [kind.letter] = some kind := by
  cases kind <;> rfl

end FieldKind

inductive Field where
  | matcher (matcher : Matcher)
  | service (service : ServiceField)
  | identifier (range : ByteRange)
  | data (range : ByteRange)
  | power (power : PowerField)
  deriving DecidableEq, Repr

namespace Field

def kind : Field → FieldKind
  | matcher _ => .matcher
  | service _ => .service
  | identifier _ => .identifier
  | data _ => .data
  | power _ => .power

def range : Field → ByteRange
  | matcher field => field.range
  | service field => field.range
  | identifier range => range
  | data range => range
  | power field => field.range

/-- What follows the range: the bytes of a matcher, the UUID of a service, a pinned power. -/
def valueText : Field → List Char
  | matcher field => '=' :: Text.Hex.encode field.bytes
  | service field =>
      match field.uuid with
      | .assigned number => '=' :: Text.Hex.encode (Bytes.ofWord 2 number.toUInt64)
      | .full uuid => '=' :: uuid.text
  | identifier _ => []
  | data _ => []
  | power field =>
      match field.pinned with
      | some pinned => ':' :: Text.Decimal.ofInt pinned.toInt
      | none => []

def text (field : Field) : List Char :=
  field.kind.letter :: ':' :: field.range.text ++ field.valueText

end Field

namespace Layout

def fields (layout : Layout) : List Field :=
  layout.matcher.toList.map .matcher ++ layout.service.toList.map .service ++
    layout.identifiers.map .identifier ++ layout.dataFields.map .data ++
    layout.power.toList.map .power

/-- The number of fields of a kind. -/
def count (layout : Layout) : FieldKind → Nat
  | .matcher => layout.matcher.toList.length
  | .service => layout.service.toList.length
  | .identifier => layout.identifiers.length
  | .data => layout.dataFields.length
  | .power => layout.power.toList.length

/-- A layout with one more field. A second field of a kind that does not repeat replaces the first. -/
def insert (layout : Layout) : Field → Layout
  | .matcher matcher => { layout with matcher := some matcher }
  | .service service => { layout with service := some service }
  | .identifier range => { layout with identifiers := layout.identifiers ++ [range] }
  | .data range => { layout with dataFields := layout.dataFields ++ [range] }
  | .power power => { layout with power := some power }

/-- The canonical text. -/
def text (layout : Layout) : List Char :=
  [','].intercalate (layout.fields.map Field.text)

instance : ToString Layout :=
  ⟨fun layout => String.ofList layout.text⟩

/-- Inserting its fields one by one rebuilds a layout. -/
theorem foldl_insert_fields (layout : Layout) : layout.fields.foldl insert empty = layout := by
  have append : ∀ (ranges : List ByteRange) (start : Layout),
      (ranges.map Field.identifier).foldl insert start =
        { start with identifiers := start.identifiers ++ ranges } ∧
      (ranges.map Field.data).foldl insert start =
        { start with dataFields := start.dataFields ++ ranges } := by
    intro ranges
    induction ranges with
    | nil => simp
    | cons range ranges ih =>
        intro start
        simp only [List.map_cons, List.foldl_cons]
        rw [(ih _).1, (ih _).2]
        simp [insert]
  obtain ⟨matcher, service, identifiers, dataFields, power⟩ := layout
  simp only [fields, List.foldl_append, (append _ _).1, (append _ _).2]
  cases matcher <;> cases service <;> cases power <;> simp [insert, empty]

end Layout

end BleBeacon
