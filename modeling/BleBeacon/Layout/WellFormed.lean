import BleBeacon.Layout.Basic
import Mathlib.Algebra.Group.Nat.Defs

/-!
# Well-formed layouts

The bounds of the layouts that a text can denote. Under them every later step stays inside its words,
arrays and texts: a matcher and a data field fit 64 bits, a power field fits 32, an identifier has a
text, and a service UUID is compared with as many bytes as it has.
-/

namespace BleBeacon

/-- The bounds of a single range: in order, within the offsets, and at most `limit` bytes wide. -/
structure ByteRange.Within (range : ByteRange) (limit : Nat) : Prop where
  ordered : range.first ≤ range.last
  last_le : range.last ≤ Layout.maxOffset
  width_le : range.width ≤ limit

/-- The bounds of a layout that has at least one field. -/
structure Layout.WellFormed (layout : Layout) : Prop where
  nonempty : layout ≠ Layout.empty
  matcher : ∀ matcher ∈ layout.matcher, matcher.range.Within Layout.maxMatcherWidth ∧
    matcher.range.littleEndian = false ∧ matcher.expected.toNat < 256 ^ matcher.range.width
  service : ∀ service ∈ layout.service, service.range.Within service.uuid.width ∧
    service.range.littleEndian = false ∧ service.range.width = service.uuid.width
  identifiers : ∀ range ∈ layout.identifiers, range.Within Layout.maxIdentifierWidth
  identifiers_le : layout.identifiers.length ≤ Layout.maxIdentifiers
  dataFields : ∀ range ∈ layout.dataFields, range.Within Layout.maxDataWidth
  dataFields_le : layout.dataFields.length ≤ Layout.maxDataFields
  power : ∀ power ∈ layout.power,
    power.range.Within Layout.maxPowerWidth ∧ power.range.littleEndian = false

end BleBeacon
