import BleBeacon.Text.Utf8

/-!
# Refused layout texts

A layout text is refused at its first offending token. The error keeps the reason and the token, cut
to a fixed number of bytes.
-/

namespace BleBeacon

/-- Why a token of a layout text is refused. -/
inductive LayoutFault where
  | emptyLayout
  | unknownFieldType
  | malformedRange
  | endBeforeStart
  | duplicateField
  | hexLengthMismatch
  | invalidValue
  | missingValue
  | unexpectedValue
  | fieldTooWide
  | tooManyFields
  deriving DecidableEq, Repr

def LayoutFault.message : LayoutFault → String
  | emptyLayout => "layout has no fields"
  | unknownFieldType => "unknown field type"
  | malformedRange => "malformed range"
  | endBeforeStart => "end offset is before start offset"
  | duplicateField => "field may only appear once"
  | hexLengthMismatch => "value length does not match the field width"
  | invalidValue => "invalid value"
  | missingValue => "field requires a value"
  | unexpectedValue => "field does not take a value"
  | fieldTooWide => "field is too wide"
  | tooManyFields => "too many fields of this type"

structure LayoutError where
  token : List Char
  fault : LayoutFault
  deriving DecidableEq, Repr

namespace LayoutError

/-- The most bytes of a token that an error keeps. -/
def maxTokenLength : Nat := 64

/-- The error that blames a token. -/
def blame (token : List Char) (fault : LayoutFault) : LayoutError :=
  ⟨Text.excerpt maxTokenLength token, fault⟩

def message (error : LayoutError) : String :=
  "invalid layout field `" ++ String.ofList error.token ++ "`: " ++ error.fault.message

end LayoutError

end BleBeacon
