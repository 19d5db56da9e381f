import BleBeacon.Filter.Basic
import BleBeacon.Filter.Pattern
import BleBeacon.Layout.Basic

/-!
# Scan filters of a layout

A layout is turned into filters that let through every advertisement it could read. The pattern of
its matcher is compared from the first payload byte for manufacturer layouts, of which each
manufacturer identifier gets a filter, and from right behind the service UUID for service layouts.
Prefixes of identifiers that are already known narrow the pattern, one filter for each, where the
layout has a place for them.
-/

namespace BleBeacon

namespace Matcher

/-- The matcher value of the iBeacon format. -/
def iBeaconTypeCode : UInt64 := 0x0215

def isIBeacon (matcher : Matcher) : Bool :=
  matcher.expected == iBeaconTypeCode && matcher.range.width == 2

/-- Pins the bytes of a matcher in a pattern that starts at a payload offset, as far as they are not
in front of it. -/
def pattern (matcher : Matcher) (offset : Nat) : Except FilterError Pattern :=
  Pattern.empty.writeAll (matcher.range.first - offset)
    (matcher.bytes.drop (offset - matcher.range.first))

end Matcher

namespace ScanFilter

/-- The most filters for one layout or one scan session. -/
def maxFilters : Nat := 16

def ofPattern (key : FilterKey) (offset : Nat) (pattern : Pattern) : ScanFilter :=
  ⟨key, pattern.filter, pattern.mask, offset⟩

/-- Collects filters in order while there is room. Each filter has to be made before it takes room,
so of two errors the earlier one in the list wins. -/
def collect (room : Nat) : List (Except FilterError ScanFilter) →
    Except FilterError (List ScanFilter)
  | [] => .ok []
  | candidate :: candidates => do
      let filter ← candidate
      match room with
      | 0 => .error .tooManyFilters
      | room + 1 => return filter :: (← collect room candidates)

end ScanFilter

/-- Where known prefixes are compared, and how many of their bytes. -/
structure PrefixSlot where
  /-- Payload offset of the first byte. -/
  start : Nat
  /-- The most bytes compared, unless the whole prefix is. -/
  limit : Option Nat
  deriving DecidableEq, Repr

/-- The bytes of a prefix that are compared. -/
def PrefixSlot.clip (slot : PrefixSlot) (bytes : List UInt8) : List UInt8 :=
  match slot.limit with
  | some limit => bytes.take limit
  | none => bytes

namespace Layout

/-- The payload offset at which the patterns of a layout start. -/
def filterOffset (layout : Layout) : Nat :=
  match layout.service with
  | none => 0
  | some service => service.range.last + 1

/-- A manufacturer layout has a place for prefixes only if it is an iBeacon: right behind the type
code. A service layout has one at its first identifier, unless that starts before the patterns do. -/
def prefixSlot? (layout : Layout) : Option PrefixSlot :=
  match layout.service with
  | none =>
      match layout.matcher with
      | some matcher =>
          if matcher.isIBeacon then some ⟨matcher.range.last + 1, none⟩ else none
      | none => none
  | some _ =>
      match layout.identifiers with
      | range :: _ =>
          if layout.filterOffset ≤ range.first then some ⟨range.first, some range.width⟩ else none
      | [] => none

/-- The pattern of the matcher alone. -/
def basePattern (layout : Layout) : Except FilterError Pattern :=
  match layout.matcher with
  | none => .ok .empty
  | some matcher => matcher.pattern layout.filterOffset

/-- The patterns of a layout: one for each prefix if there are prefixes and a place for them,
otherwise that of the matcher. -/
def patterns (layout : Layout) (base : Pattern) (prefixes : List (List UInt8)) :
    List (Except FilterError Pattern) :=
  match layout.prefixSlot?, prefixes with
  | some slot, _ :: _ =>
      prefixes.map fun bytes =>
        base.writeAll (slot.start - layout.filterOffset) (slot.clip bytes)
  | _, _ => [.ok base]

/-- The keys of a layout, each of which gets every pattern. -/
def filterKeys (layout : Layout) (manufacturerIds : List UInt16) : List FilterKey :=
  match layout.service with
  | none => manufacturerIds.map .manufacturer
  | some service => [.service service.uuid]

/-- The scan filters of a layout. -/
def scanFilters (layout : Layout) (manufacturerIds : List UInt16) (prefixes : List (List UInt8)) :
    Except FilterError (List ScanFilter) := do
  let keys := layout.filterKeys manufacturerIds
  if keys.isEmpty then
    .error .noManufacturerIds
  else
    let base ← layout.basePattern
    ScanFilter.collect ScanFilter.maxFilters <|
      keys.flatMap fun key =>
        (layout.patterns base prefixes).map fun pattern =>
          pattern.map (ScanFilter.ofPattern key layout.filterOffset)

end Layout

end BleBeacon
