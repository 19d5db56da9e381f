/-!
# Filter patterns

A pattern constrains some of the bytes from a payload offset on: each of its cells pins a byte or
leaves it open. Writing beyond the end fills the gap with open cells. A radio takes a pattern as two
byte arrays of equal length, the filter and the mask, in which an open cell is zero twice.
-/

namespace BleBeacon

/-- Why scan filters cannot be made. -/
inductive FilterError where
  | noManufacturerIds
  | filterTooLong
  | tooManyFilters
  | tooManyPrefixes
  deriving DecidableEq, Repr

def FilterError.message : FilterError → String
  | noManufacturerIds => "manufacturer data layout needs at least one manufacturer ID"
  | filterTooLong => "filter exceeds 31 bytes"
  | tooManyFilters => "more than 16 scan filters"
  | tooManyPrefixes => "more than 8 known prefixes for one layout"

structure Pattern where
  cells : List (Option UInt8)
  deriving DecidableEq, Repr

namespace Pattern

/-- The most cells of a pattern: the payload of a legacy advertisement has 31 bytes. -/
def maxLength : Nat := 31

def empty : Pattern := ⟨[]⟩

def length (pattern : Pattern) : Nat :=
  pattern.cells.length

/-- The bytes to compare with. -/
def filter (pattern : Pattern) : List UInt8 :=
  pattern.cells.map fun cell => cell.getD 0

/-- The bits to compare. -/
def mask (pattern : Pattern) : List UInt8 :=
  pattern.cells.map fun cell => if cell.isSome then 0xFF else 0

/-- Pins the byte at an index, with open cells up to it where the pattern is shorter. -/
def write (pattern : Pattern) (index : Nat) (byte : UInt8) : Except FilterError Pattern :=
  if index < maxLength then
    .ok ⟨(pattern.cells ++ List.replicate (index + 1 - pattern.length) none).set index (some byte)⟩
  else
    .error .filterTooLong

/-- Pins consecutive bytes from an index on. -/
def writeAll (pattern : Pattern) (index : Nat) : List UInt8 → Except FilterError Pattern
  | [] => .ok pattern
  | byte :: bytes => do (← pattern.write index byte).writeAll (index + 1) bytes

@[simp] theorem length_filter (pattern : Pattern) : pattern.filter.length = pattern.length := by
  simp [filter, length]

@[simp] theorem length_mask (pattern : Pattern) : pattern.mask.length = pattern.length := by
  simp [mask, length]

end Pattern

end BleBeacon
