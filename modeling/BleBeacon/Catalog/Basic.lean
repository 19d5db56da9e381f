import BleBeacon.Catalog.Settings
import BleBeacon.Filter.Synthesis
import BleBeacon.Layout.Compile
import BleBeacon.Reading

/-!
# Catalogs

A catalog holds compiled layouts with the format each stands for. An advertisement belongs to the
first entry whose layout reads it; settings restrict which entries are tried and how strong the
signal has to be. Skipping disabled entries during the search is the same as searching the
restricted catalog.
-/

namespace BleBeacon

structure Catalog.Entry where
  format : BeaconFormat
  layout : Layout
  /-- The manufacturer identifiers that scan filters are keyed on. -/
  manufacturerIds : List UInt16
  deriving DecidableEq, Repr

structure Catalog where
  entries : List Catalog.Entry
  deriving DecidableEq, Repr

/-- What a catalog entry is compiled from. -/
structure Catalog.Definition where
  format : BeaconFormat
  layout : String
  manufacturerIds : List UInt16 := []
  deriving DecidableEq, Repr

/-- An advertisement claimed by a catalog entry. -/
structure Sighting where
  format : BeaconFormat
  reading : Reading
  deriving DecidableEq, Repr

inductive CatalogError where
  | layout (format : BeaconFormat) (error : LayoutError)
  | tooManyLayouts
  deriving DecidableEq, Repr

def CatalogError.message : CatalogError → String
  | layout format error => format.name ++ " layout: " ++ error.message
  | tooManyLayouts => "catalog holds at most 8 layouts"

namespace Catalog

/-- The most entries of a catalog. -/
def maxLayouts : Nat := 8

/-- Compiles definitions in order while there is room. The text of a definition without room is
still compiled, so its own error comes first. -/
def compileAll (room : Nat) : List Definition → Except CatalogError (List Entry)
  | [] => .ok []
  | definition :: definitions =>
      match Layout.compile definition.layout, room with
      | .error error, _ => .error (.layout definition.format error)
      | .ok _, 0 => .error .tooManyLayouts
      | .ok layout, room + 1 => do
          let entries ← compileAll room definitions
          return ⟨definition.format, layout, definition.manufacturerIds⟩ :: entries

def ofDefinitions (definitions : List Definition) : Except CatalogError Catalog := do
  return ⟨← compileAll maxLayouts definitions⟩

/-- What an entry makes of an advertisement. -/
def Entry.decode (entry : Entry) (advertisement : List UInt8) : Option Sighting :=
  (entry.layout.decode advertisement).map fun reading => ⟨entry.format, reading⟩

/-- The sighting by the first entry that reads the advertisement. -/
def decode (catalog : Catalog) (advertisement : List UInt8) : Option Sighting :=
  catalog.entries.findSome? fun entry => entry.decode advertisement

/-- The formats of all entries that read the advertisement. -/
def claimants (catalog : Catalog) (advertisement : List UInt8) : List BeaconFormat :=
  (catalog.entries.filter fun entry => (entry.decode advertisement).isSome).map (·.format)

/-- The sighting by the first enabled entry that reads an advertisement, if it was received with
enough signal strength. -/
def sighting? (catalog : Catalog) (settings : Settings) (advertisement : List UInt8)
    (rssi : Int8) : Option Sighting :=
  if rssi < settings.minRssi then
    none
  else
    catalog.entries.findSome? fun entry =>
      if settings.isEnabled entry.format then entry.decode advertisement else none

/-- The catalog of the enabled entries, in the same order. -/
def restrict (catalog : Catalog) (settings : Settings) : Catalog :=
  ⟨catalog.entries.filter fun entry => settings.isEnabled entry.format⟩

end Catalog

end BleBeacon
