import HomeSync.Value

/-
What the names in device metadata mean to a bridge.

A feature name means a characteristic, a device type means a main service and a
category.  The names are matched in any letter case.
-/
namespace HomeSync

/-! ## Features -/

structure Capability where
  name : String
  /-- The type of the characteristic, a short hexadecimal number. -/
  typeCode : String
  format : Format
  min : Option Binary64
  max : Option Binary64
  step : Option Binary64
  writable : Bool
  deriving DecidableEq

namespace Capability

/-- Only numbers take bounds from the metadata. -/
def isNumeric (c : Capability) : Bool := c.format.isNumeric

def flag (name typeCode : String) (writable : Bool) : Capability :=
  ⟨name, typeCode, .bool, none, none, none, writable⟩

def ranged (name typeCode : String) (format : Format) (min max step : Binary64)
    (writable : Bool) : Capability :=
  ⟨name, typeCode, format, some min, some max, some step, writable⟩

def whole (n : Nat) : Binary64 := Binary64.ofFraction false n 1

def part (num den : Nat) : Binary64 := Binary64.ofFraction false num den

def table : List Capability :=
  [flag "on" "25" true,
   ranged "brightness" "8" .int32 (whole 0) (whole 100) (whole 1) true,
   ranged "hue" "13" .float (whole 0) (whole 360) (whole 1) true,
   ranged "saturation" "2F" .float (whole 0) (whole 100) (whole 1) true,
   ranged "colortemperature" "CE" .uint32 (whole 50) (whole 400) (whole 1) true,
   ranged "contactsensorstate" "6A" .uint8 (whole 0) (whole 1) (whole 1) false,
   ranged "currenttemperature" "11" .float (whole 0) (whole 100) (part 1 10) false,
   ranged "targettemperature" "35" .float (whole 10) (whole 38) (part 1 10) true,
   ranged "temperaturedisplayunits" "36" .uint8 (whole 0) (whole 1) (whole 1) true,
   ranged "currentheatingcoolingstate" "F" .uint8 (whole 0) (whole 2) (whole 1) false,
   ranged "targetheatingcoolingstate" "33" .uint8 (whole 0) (whole 3) (whole 1) true,
   ranged "currentrelativehumidity" "10" .float (whole 0) (whole 100) (whole 1) false,
   ranged "targetrelativehumidity" "34" .float (whole 0) (whole 100) (whole 1) true,
   flag "motiondetected" "22" false,
   ranged "occupancydetected" "71" .uint8 (whole 0) (whole 1) (whole 1) false,
   ranged "smokedetected" "76" .uint8 (whole 0) (whole 1) (whole 1) false,
   ranged "leakdetected" "70" .uint8 (whole 0) (whole 1) (whole 1) false,
   ranged "carbonmonoxidedetected" "69" .uint8 (whole 0) (whole 1) (whole 1) false,
   ranged "carbondioxidedetected" "92" .uint8 (whole 0) (whole 1) (whole 1) false,
   ranged "carbondioxidelevel" "93" .float (whole 0) (whole 100000) (whole 1) false,
   ranged "currentambientlightlevel" "6B" .float (part 1 10000) (whole 100000) (part 1 10000) false,
   ranged "airquality" "95" .uint8 (whole 0) (whole 5) (whole 1) false,
   ranged "batterylevel" "68" .uint8 (whole 0) (whole 100) (whole 1) false,
   ranged "chargingstate" "8F" .uint8 (whole 0) (whole 2) (whole 1) false,
   ranged "statuslowbattery" "79" .uint8 (whole 0) (whole 1) (whole 1) false,
   flag "statusactive" "75" false,
   ranged "statusfault" "77" .uint8 (whole 0) (whole 1) (whole 1) false,
   ranged "statustampered" "7A" .uint8 (whole 0) (whole 1) (whole 1) false,
   flag "outletinuse" "26" false,
   ranged "active" "B0" .uint8 (whole 0) (whole 1) (whole 1) true,
   ranged "inuse" "D2" .uint8 (whole 0) (whole 1) (whole 1) false,
   ranged "rotationspeed" "29" .float (whole 0) (whole 100) (whole 1) true,
   ranged "rotationdirection" "28" .int32 (whole 0) (whole 1) (whole 1) true,
   ranged "currentposition" "6D" .uint8 (whole 0) (whole 100) (whole 1) false,
   ranged "targetposition" "7C" .uint8 (whole 0) (whole 100) (whole 1) true,
   ranged "positionstate" "72" .uint8 (whole 0) (whole 2) (whole 1) false,
   ranged "currentdoorstate" "E" .uint8 (whole 0) (whole 4) (whole 1) false,
   ranged "targetdoorstate" "32" .uint8 (whole 0) (whole 1) (whole 1) true,
   flag "obstructiondetected" "24" false,
   ranged "lockcurrentstate" "1D" .uint8 (whole 0) (whole 3) (whole 1) false,
   ranged "locktargetstate" "1E" .uint8 (whole 0) (whole 1) (whole 1) true,
   ranged "securitysystemcurrentstate" "66" .uint8 (whole 0) (whole 4) (whole 1) false,
   ranged "securitysystemtargetstate" "67" .uint8 (whole 0) (whole 3) (whole 1) true,
   ranged "programmableswitchevent" "73" .uint8 (whole 0) (whole 2) (whole 1) false,
   ranged "volume" "119" .uint8 (whole 0) (whole 100) (whole 1) true,
   flag "mute" "11A" true]

/-- Other names for features: the alias, then the name in the table. -/
def aliases : List (String × String) := [("state", "contactsensorstate")]

def canonicalName (feature : String) : String :=
  let name := Text.fold feature
  match aliases.find? (·.1 == name) with
  | some a => a.2
  | none => name

def find? (feature : String) : Option Capability :=
  table.find? (·.name == canonicalName feature)

end Capability

/-! ## Device types -/

/-- The main service of a device type. -/
structure ServiceKind where
  name : String
  typeCode : String
  deriving DecidableEq

namespace ServiceKind

def table : List ServiceKind :=
  [⟨"lightbulb", "43"⟩,
   ⟨"switch", "49"⟩,
   ⟨"outlet", "47"⟩,
   ⟨"fan", "40"⟩,
   ⟨"fanv2", "B7"⟩,
   ⟨"airpurifier", "BB"⟩,
   ⟨"airqualitysensor", "8D"⟩,
   ⟨"batteryservice", "96"⟩,
   ⟨"carbondioxidesensor", "97"⟩,
   ⟨"carbonmonoxidesensor", "7F"⟩,
   ⟨"contactsensor", "80"⟩,
   ⟨"door", "81"⟩,
   ⟨"garagedooropener", "41"⟩,
   ⟨"humiditysensor", "82"⟩,
   ⟨"leaksensor", "83"⟩,
   ⟨"lightsensor", "84"⟩,
   ⟨"lockmechanism", "45"⟩,
   ⟨"motionsensor", "85"⟩,
   ⟨"occupancysensor", "86"⟩,
   ⟨"securitysystem", "7E"⟩,
   ⟨"smokesensor", "87"⟩,
   ⟨"speaker", "113"⟩,
   ⟨"statelessprogrammableswitch", "89"⟩,
   ⟨"temperaturesensor", "8A"⟩,
   ⟨"thermostat", "4A"⟩,
   ⟨"window", "8B"⟩,
   ⟨"windowcovering", "8C"⟩]

def find? (deviceType : String) : Option ServiceKind :=
  table.find? (·.name == Text.fold deviceType)

end ServiceKind

namespace Category

def table : List (String × Nat) :=
  [("other", 1),
   ("bridge", 2),
   ("fan", 3),
   ("garagedooropener", 4),
   ("lightbulb", 5),
   ("doorlock", 6),
   ("outlet", 7),
   ("switch", 8),
   ("thermostat", 9),
   ("sensor", 10),
   ("securitysystem", 11),
   ("door", 12),
   ("window", 13),
   ("windowcovering", 14),
   ("programmableswitch", 15),
   ("ipcamera", 17),
   ("videodoorbell", 18),
   ("airpurifier", 19),
   ("heater", 20),
   ("airconditioner", 21),
   ("humidifier", 22),
   ("dehumidifier", 23),
   ("sprinklers", 28),
   ("faucets", 29),
   ("showersystems", 30)]

def ofDeviceType (deviceType : String) : Nat :=
  match table.find? (·.1 == Text.fold deviceType) with
  | some c => c.2
  | none => 0

end Category

/-! ## Fixed parts of every accessory -/

namespace TypeCode

def accessoryInformation : String := "3E"

def bridgingState : String := "62"

def identify : String := "14"

def manufacturer : String := "20"

def model : String := "21"

def name : String := "23"

def serialNumber : String := "30"

def reachable : String := "63"

end TypeCode
end HomeSync
