import BleBeacon.BeaconFormat
import BleBeacon.Catalog.Basic
import BleBeacon.Json
import BleBeacon.MacAddress
import BleBeacon.Report.LineBuffer

/-!
# Reports

A sighting is reported together with what the radio knows about it, as one JSON object on a line of
its own. The members come in a fixed order, and the power is left out if there is none. A report is
written into a bounded buffer, newline included, or not at all.
-/

namespace BleBeacon

structure Report where
  format : BeaconFormat
  /-- The hardware address of the sender, as text. -/
  mac : String
  /-- Signal strength in dBm. -/
  rssi : Int8
  beaconType : UInt64
  identifiers : List Identifier
  dataFields : List UInt64
  power : Option Int32
  /-- Milliseconds of uptime at reception. -/
  timestamp : UInt32
  deriving DecidableEq, Repr

/-- The report of a sighting. -/
def Sighting.report (sighting : Sighting) (sender : MacAddress) (rssi : Int8)
    (timestamp : UInt32) : Report where
  format := sighting.format
  mac := toString sender
  rssi := rssi
  beaconType := sighting.reading.beaconType
  identifiers := sighting.reading.identifiers
  dataFields := sighting.reading.dataFields
  power := sighting.reading.power
  timestamp := timestamp

namespace Report

/-- The longest line that a message buffer takes, in bytes. -/
def maxLineLength : Nat := 512

def members (report : Report) : List (List Char) :=
  [Json.member "type" (Json.string report.format.name.toList),
    Json.member "mac" (Json.string report.mac.toList),
    Json.member "rssi" (Json.int report.rssi.toInt),
    Json.member "beacon_type" (Json.nat report.beaconType.toNat),
    Json.member "ids"
      (Json.array (report.identifiers.map fun identifier => Json.string identifier.text)),
    Json.member "data"
      (Json.array (report.dataFields.map fun field => Json.nat field.toNat))] ++
  (report.power.toList.map fun power => Json.member "tx" (Json.int power.toInt)) ++
  [Json.member "ts" (Json.nat report.timestamp.toNat)]

/-- The line, newline included. -/
def line (report : Report) : List Char :=
  Json.object report.members ++ ['\n']

/-- The bytes of the line. -/
def bytes (report : Report) : List UInt8 :=
  Text.utf8 report.line

/-- The line in the pieces in which it is written. -/
def pieces (report : Report) : List (List Char) :=
  ['{'] :: report.members.intersperse [','] ++ [['}'], ['\n']]

/-- Writes the line into an empty buffer. -/
def write? (report : Report) (capacity : Nat) : Option LineBuffer :=
  (LineBuffer.empty capacity).appendAll? report.pieces

theorem flatten_pieces (report : Report) : report.pieces.flatten = report.line := by
  simp [pieces, line, Json.object, List.intercalate]

end Report

end BleBeacon
