import BleBeacon.Catalog.Basic

/-!
# Built-in catalog

The layouts of the publicly documented beacon formats, in the order in which they are tried, with the
manufacturer identifiers for their scan filters.
-/

namespace BleBeacon

namespace ManufacturerId

/-- The identifier of AltBeacon structures. -/
def radius : UInt16 := 0x0118

/-- The identifier of iBeacon structures. -/
def apple : UInt16 := 0x004C

/-- The identifier of RuuviTag structures. -/
def ruuvi : UInt16 := 0x0499

end ManufacturerId

namespace Catalog

/-- The type code `beac` behind the company identifier, three identifiers, power and a data byte. -/
def altBeacon : Definition where
  format := .altBeacon
  layout := "m:2-3=beac,i:4-19,i:20-21,i:22-23,p:24-24,d:25-25"
  manufacturerIds := [ManufacturerId.radius]

/-- The type code `0215`, the proximity UUID, major, minor and power. -/
def iBeacon : Definition where
  format := .iBeacon
  layout := "m:2-3=0215,i:4-19,i:20-21,i:22-23,p:24-24"
  manufacturerIds := [ManufacturerId.apple]

/-- Service Data of `feaa` with frame type zero, namespace and instance. Power is pinned to the
calibration constant of -41 dBm. -/
def eddystoneUid : Definition where
  format := .eddystoneUid
  layout := "s:0-1=feaa,m:2-2=00,p:3-3:-41,i:4-13,i:14-19"

/-- Company identifier and format byte 5, with the hardware address as identifier. -/
def ruuviTag : Definition where
  format := .ruuviTag
  layout := "m:0-2=990405,i:20-25"
  manufacturerIds := [ManufacturerId.ruuvi]

def builtInDefinitions : List Definition := [altBeacon, iBeacon, eddystoneUid, ruuviTag]

/-- The catalog of the built-in layouts. -/
def builtIn : Except CatalogError Catalog :=
  ofDefinitions builtInDefinitions

end Catalog

end BleBeacon
