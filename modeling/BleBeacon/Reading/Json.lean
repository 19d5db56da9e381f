import BleBeacon.Json
import BleBeacon.Reading

/-!
# Readings as JSON

A reading is written as one object with its four parts in order; an absent power is `null`.
-/

namespace BleBeacon.Reading

def json (reading : Reading) : List Char :=
  Json.object [
    Json.member "beacon_type" (Json.nat reading.beaconType.toNat),
    Json.member "identifiers"
      (Json.array (reading.identifiers.map fun identifier => Json.string identifier.text)),
    Json.member "data_fields"
      (Json.array (reading.dataFields.map fun field => Json.nat field.toNat)),
    Json.member "power"
      (match reading.power with
        | some power => Json.int power.toInt
        | none => "null".toList)]

end BleBeacon.Reading
