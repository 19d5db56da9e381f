import BleBeacon.Catalog.Basic

/-!
# Scan filters of a session

The filters of a scan session are those of the enabled entries, in catalog order, each narrowed by
the known prefixes of its format. The first entry that fails, or that overflows the filters of the
radio, decides the error.
-/

namespace BleBeacon

/-- The first bytes of an identifier that was already seen for a format. -/
structure KnownPrefix where
  format : BeaconFormat
  bytes : List UInt8
  deriving DecidableEq, Repr

namespace Catalog

/-- The most known prefixes of one format. -/
def maxPrefixes : Nat := 8

/-- The known prefixes of a format, in order. -/
def prefixesOf (known : List KnownPrefix) (format : BeaconFormat) : List (List UInt8) :=
  (known.filter fun knownPrefix => knownPrefix.format == format).map (·.bytes)

/-- The filters of one entry. -/
def Entry.scanFilters (entry : Entry) (known : List KnownPrefix) :
    Except FilterError (List ScanFilter) :=
  let prefixes := prefixesOf known entry.format
  if maxPrefixes < prefixes.length then .error .tooManyPrefixes
  else entry.layout.scanFilters entry.manufacturerIds prefixes

/-- Joins the filters of entries in order while there is room. -/
def joinFilters (known : List KnownPrefix) (room : Nat) : List Entry →
    Except FilterError (List ScanFilter)
  | [] => .ok []
  | entry :: entries => do
      let filters ← entry.scanFilters known
      if room < filters.length then
        .error .tooManyFilters
      else
        return filters ++ (← joinFilters known (room - filters.length) entries)

def scanFilters (catalog : Catalog) (settings : Settings) (known : List KnownPrefix) :
    Except FilterError (List ScanFilter) :=
  joinFilters known ScanFilter.maxFilters (catalog.restrict settings).entries

end Catalog

end BleBeacon
