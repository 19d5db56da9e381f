import BleBeacon.BeaconFormat

/-!
# Catalog settings

A host narrows what a catalog reports without rebuilding it: by a least signal strength and by the
set of enabled formats. Settings start out with every format enabled and are changed step by step.
-/

namespace BleBeacon

structure Settings where
  /-- The least signal strength in dBm. Weaker advertisements are ignored. -/
  minRssi : Int8 := -100
  enabled : FormatSet := .full
  deriving DecidableEq, Repr

namespace Settings

instance : Inhabited Settings := ⟨{}⟩

def isEnabled (settings : Settings) (format : BeaconFormat) : Bool :=
  settings.enabled.contains format

/-- One change of the settings. -/
inductive Change where
  | reset
  | enable (format : BeaconFormat) (on : Bool)
  | minRssi (threshold : Int8)
  deriving DecidableEq, Repr

def apply (settings : Settings) : Change → Settings
  | .reset => {}
  | .enable format true => { settings with enabled := settings.enabled.insert format }
  | .enable format false => { settings with enabled := settings.enabled.erase format }
  | .minRssi threshold => { settings with minRssi := threshold }

/-- The settings after changes in order. -/
def run (settings : Settings) (changes : List Change) : Settings :=
  changes.foldl apply settings

end Settings

end BleBeacon
