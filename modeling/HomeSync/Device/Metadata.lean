import HomeSync.Device.Basic
import HomeSync.Json.Reader
import HomeSync.Json.Writer

/-
Device metadata on the wire.

An announcement is a JSON object with named fields, or an array of the same
fields in a fixed order of which the last ones may be missing.  Fields that are
not named here are skipped whatever they hold.  A device writes its metadata as
an object and leaves out what it does not have.
-/
namespace HomeSync

namespace Json

/-- The values of a record with the given field names.  An object may have other
members too, but none of the named ones twice; an array may not be longer than
the list of names. -/
def fields? (names : List String) : Json → Option (List (Option Json))
  | .array items =>
    if items.length ≤ names.length then
      some (items.map some ++ List.replicate (names.length - items.length) none)
    else none
  | .object members =>
    (members.mapM fun m => (textOf? m.1).map (·, m.2)).bind fun members =>
      if names.all fun name => (members.filter (·.1 == name)).length ≤ 1 then
        some (names.map fun name => members.lookup name)
      else none
  | _ => none

def textField? : Option Json → Option String
  | none => some ""
  | some (.text literal) => textOf? literal
  | some _ => none

def optionalText? : Option Json → Option (Option String)
  | none | some .null => some none
  | some (.text literal) => (textOf? literal).map some
  | some _ => none

def optionalWord? : Option Json → Option (Option Int64)
  | none | some .null => some none
  | some (.number literal) => (wordOf? literal).map some
  | some _ => none

end Json

namespace Feature

def fieldNames : List String := ["min", "max", "step", "getTopic", "setTopic"]

def ofJson? (j : Json) : Option Feature :=
  match j.fields? fieldNames with
  | some [min, max, step, getTopic, setTopic] => do
    let min ← Json.optionalWord? min
    let max ← Json.optionalWord? max
    let step ← Json.optionalWord? step
    let getTopic ← Json.textField? getTopic
    let setTopic ← Json.textField? setTopic
    return { min, max, step, getTopic, setTopic }
  | _ => none

/-- The metadata of a feature.  Its name and owner are not part of it. -/
def toJson (f : Feature) : Json :=
  let word (name : String) (n : Option Int64) :=
    (n.map fun n => Json.member name (.ofWord n)).toList
  let text (name s : String) := if s.isEmpty then [] else [Json.member name (.ofString s)]
  .object (word "min" f.min ++ word "max" f.max ++ word "step" f.step
    ++ text "getTopic" f.getTopic ++ text "setTopic" f.setTopic)

def decode? (bytes : Payload) : Option Feature := (Json.parse? bytes).bind ofJson?

end Feature

structure Metadata where
  topic : String
  name : String
  manufacturer : String
  model : String
  serialNumber : String
  deviceType : String
  lastWill : Option String
  features : SortedMap String Feature
  deriving DecidableEq

namespace Metadata

def fieldNames : List String :=
  ["topic", "name", "manufacturer", "model", "serialNumber", "type", "lastWillID", "feature"]

/-- The features by name.  Of several under one name the last one counts. -/
def features? : Option Json → Option (SortedMap String Feature)
  | none | some .null => some SortedMap.empty
  | some (.object members) =>
    (members.mapM fun (m : List UInt8 × Json) => do
      return (← Json.textOf? m.1, ← Feature.ofJson? m.2)).map SortedMap.ofList
  | some _ => none

def ofJson? (j : Json) : Option Metadata :=
  match j.fields? fieldNames with
  | some [topic, name, manufacturer, model, serialNumber, deviceType, lastWill, features] => do
    let topic ← Json.textField? topic
    let name ← Json.textField? name
    let manufacturer ← Json.textField? manufacturer
    let model ← Json.textField? model
    let serialNumber ← Json.textField? serialNumber
    let deviceType ← Json.textField? deviceType
    let lastWill ← Json.optionalText? lastWill
    let features ← features? features
    return { topic, name, manufacturer, model, serialNumber, deviceType, lastWill, features }
  | _ => none

def decode? (bytes : Payload) : Option Metadata := (Json.parse? bytes).bind ofJson?

end Metadata

namespace Device

/-- The device with all its metadata replaced.  A topic that it already has
stays, and its features are attached anew. -/
def withMetadata (d : Device) (m : Metadata) : Device :=
  let bare : Device :=
    { topic := if d.topic.isEmpty then m.topic else d.topic
      name := m.name
      manufacturer := m.manufacturer
      model := m.model
      serialNumber := m.serialNumber
      deviceType := m.deviceType
      lastWill := m.lastWill.filter fun id => !id.isEmpty
      reachable := d.reachable }
  m.features.toList.foldl (fun d f => d.addFeature f.1 f.2) bare

def applyMetadata (d : Device) (payload : Payload) : Except DeviceError Device :=
  match Metadata.decode? payload with
  | some m => .ok (d.withMetadata m)
  | none => .error .malformedMetadata

def ofPayload (payload : Payload) : Except DeviceError Device :=
  ({ topic := "" } : Device).applyMetadata payload

def toJson (d : Device) : Json :=
  .object (
    [Json.member "topic" (.ofString d.topic),
      Json.member "name" (.ofString d.name),
      Json.member "manufacturer" (.ofString d.manufacturer),
      Json.member "model" (.ofString d.model),
      Json.member "serialNumber" (.ofString d.serialNumber),
      Json.member "type" (.ofString d.deviceType)]
    ++ (d.lastWill.map fun id => Json.member "lastWillID" (.ofString id)).toList
    ++ [Json.member "feature" (.object
        (d.features.toList.map fun f => Json.member f.1 f.2.toJson))])

def announcePrefix : String := "announce"

/-- The announcement of a device, retained below the announce level. -/
def announcement (d : Device) : Publication :=
  ⟨Topic.child announcePrefix d.topic, d.toJson.render, atLeastOnce, true⟩

end Device
end HomeSync
