import BleBeacon.Layout.Error
import BleBeacon.Layout.Field
import BleBeacon.Text.Cut

/-!
# Tokens of a layout text

A token has the form `letter:first-last[l][=value][:extra]`. It is taken apart first, without regard
to what its kind of field needs, and then read as a field of its kind. The range ends at the first
equals sign, because the text of a UUID has hyphens of its own.
-/

namespace BleBeacon

namespace ByteRange

/-- An offset: digits, at least one, of a value within the offsets of a payload. -/
def offset? (text : List Char) : Option Nat :=
  match Text.Decimal.nat? text with
  | some offset => if offset ≤ Layout.maxOffset then some offset else none
  | none => none

/-- A text without its suffix `l`, and whether it had one. -/
def endianness (text : List Char) : List Char × Bool :=
  if text.getLast? = some 'l' then (text.dropLast, true) else (text, false)

def parse (text : List Char) : Except LayoutFault ByteRange :=
  let (offsets, littleEndian) := endianness text
  match Text.cut '-' offsets with
  | none => .error .malformedRange
  | some (first, last) =>
      match offset? first, offset? last with
      | some first, some last =>
          if last < first then .error .endBeforeStart else .ok ⟨first, last, littleEndian⟩
      | _, _ => .error .malformedRange

end ByteRange

/-- A token taken apart. -/
structure Token where
  kind : FieldKind
  range : ByteRange
  value : Option (List Char)
  extra : Option (List Char)
  deriving DecidableEq, Repr

namespace Token

/-- The texts of the range, the value and the extra behind the letter. -/
def split (body : List Char) : List Char × Option (List Char) × Option (List Char) :=
  match Text.cut '=' body with
  | some (range, rest) =>
      match Text.cut ':' rest with
      | some (value, extra) => (range, some value, some extra)
      | none => (range, some rest, none)
  | none =>
      match Text.cut ':' body with
      | some (range, extra) => (range, none, some extra)
      | none => (body, none, none)

/-- A range that cannot be read is reported before a letter that is not known. -/
def parse (text : List Char) : Except LayoutFault Token :=
  match Text.cut ':' text with
  | none => .error .malformedRange
  | some (letter, body) =>
      let (range, value, extra) := split body
      match ByteRange.parse range, FieldKind.ofText? letter with
      | .error fault, _ => .error fault
      | .ok _, none => .error .unknownFieldType
      | .ok range, some kind => .ok ⟨kind, range, value, extra⟩

/-- A matcher needs as many digits as its bytes have. -/
def matcher (token : Token) : Except LayoutFault Matcher :=
  if token.range.littleEndian then .error .malformedRange
  else if token.extra.isSome then .error .unexpectedValue
  else
    match token.value with
    | none => .error .missingValue
    | some value =>
        if Text.Hex.isDigits value = false then .error .invalidValue
        else if value.length ≠ 2 * token.range.width then .error .hexLengthMismatch
        else if Layout.maxMatcherWidth < token.range.width then .error .fieldTooWide
        else
          match Text.Hex.decode? value with
          | some bytes => .ok ⟨token.range, Bytes.word bytes⟩
          | none => .error .invalidValue

/-- A 16-bit number in four digits. -/
def assigned? (value : List Char) : Option UInt16 :=
  if value.length = 4 then
    (Text.Hex.decode? value).map fun bytes => (Bytes.word bytes).toUInt16
  else
    none

/-- Four digits are an assigned number, 36 characters the text of a UUID. -/
def serviceUuid (value : List Char) : Except LayoutFault ServiceUuid :=
  match assigned? value with
  | some number => .ok (.assigned number)
  | none =>
      if value.length = 36 then
        match Uuid.read? value with
        | some uuid => .ok (.full uuid)
        | none => .error .invalidValue
      else if Text.Hex.isDigits value then .error .hexLengthMismatch
      else .error .invalidValue

/-- A service UUID takes exactly the bytes of its range. -/
def service (token : Token) : Except LayoutFault ServiceField :=
  if token.range.littleEndian then .error .malformedRange
  else if token.extra.isSome then .error .unexpectedValue
  else
    match token.value with
    | none => .error .missingValue
    | some value =>
        match serviceUuid value with
        | .error fault => .error fault
        | .ok uuid =>
            if token.range.width ≠ uuid.width then .error .hexLengthMismatch
            else .ok ⟨uuid, token.range⟩

/-- An identifier or a data field is a range alone, at most `limit` bytes wide. -/
def bareRange (token : Token) (limit : Nat) : Except LayoutFault ByteRange :=
  if token.value.isSome ∨ token.extra.isSome then .error .unexpectedValue
  else if limit < token.range.width then .error .fieldTooWide
  else .ok token.range

/-- The extra of a power field pins the power. -/
def power (token : Token) : Except LayoutFault PowerField :=
  if token.range.littleEndian then .error .malformedRange
  else if token.value.isSome then .error .unexpectedValue
  else if Layout.maxPowerWidth < token.range.width then .error .fieldTooWide
  else
    match token.extra with
    | none => .ok ⟨token.range, none⟩
    | some extra =>
        match Text.Decimal.int32? extra with
        | some power => .ok ⟨token.range, some power⟩
        | none => .error .invalidValue

/-- The field that a token denotes, whatever the layout has already. -/
def field (token : Token) : Except LayoutFault Field :=
  match token.kind with
  | .matcher => token.matcher.map .matcher
  | .service => token.service.map .service
  | .identifier => (token.bareRange Layout.maxIdentifierWidth).map .identifier
  | .data => (token.bareRange Layout.maxDataWidth).map .data
  | .power => token.power.map .power

end Token

end BleBeacon
