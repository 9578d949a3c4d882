import HomeSync.Message
import HomeSync.SortedMap.Basic
import HomeSync.Topic

/-
Devices and their features.

A feature can be operated once it is attached to a device.  Attaching records
the name and the owner and fills in the topics that the feature does not bring
along.  The feature map of a device changes only by attaching, detaching and
decoding metadata.
-/
namespace HomeSync

structure Feature where
  min : Option Int64 := none
  max : Option Int64 := none
  step : Option Int64 := none
  /-- Where the device reports the value. -/
  getTopic : String := ""
  /-- Where the device takes requests. -/
  setTopic : String := ""
  name : String := ""
  owner : Option String := none
  deriving DecidableEq, Inhabited

structure Device where
  topic : String
  name : String := ""
  manufacturer : String := ""
  model : String := ""
  serialNumber : String := ""
  deviceType : String := ""
  /-- The token that the broker sends when the device is gone. -/
  lastWill : Option String := none
  /-- Whether the device is there.  This is never part of the metadata. -/
  reachable : Bool := false
  features : SortedMap String Feature := SortedMap.empty
  deriving DecidableEq, Inhabited

inductive DeviceError where
  | malformedMetadata
  | notFound (topic : String)
  | featureNotFound (device feature : String)
  | detached (feature : String)
  deriving DecidableEq

namespace DeviceError

def message : DeviceError → String
  | .malformedMetadata => "Malformed device metadata"
  | .notFound topic => "Unknown device: " ++ topic
  | .featureNotFound device feature => "Device " ++ device ++ " has no feature: " ++ feature
  | .detached feature =>
    "Feature " ++ feature ++ " is not attached to a device, use Device::add_feature"

def isNotFound : DeviceError → Bool
  | .notFound _ | .featureNotFound .. => true
  | _ => false

end DeviceError

namespace Feature

def isAttached (f : Feature) : Bool := f.owner.isSome

def label (f : Feature) : String := if f.name.isEmpty then "<unnamed>" else f.name

/-- Only attached features can be operated. -/
def whenAttached {α : Type} (f : Feature) (a : α) : Except DeviceError α :=
  if f.isAttached then .ok a else .error (.detached f.label)

def request (f : Feature) (value : String) : Except DeviceError Publication :=
  f.whenAttached ⟨f.setTopic, Utf8.encode value, atLeastOnce, false⟩

/-- Report a value.  Reports are retained. -/
def report (f : Feature) (value : String) : Except DeviceError Publication :=
  f.whenAttached ⟨f.getTopic, Utf8.encode value, atLeastOnce, true⟩

def requestFilter (f : Feature) : Except DeviceError String := f.whenAttached f.setTopic

def reportFilter (f : Feature) : Except DeviceError String := f.whenAttached f.getTopic

/-- The feature as it is attached to a device topic under a name. -/
def attach (f : Feature) (topic name : String) : Feature :=
  { f with
    getTopic := if f.getTopic.isEmpty then topic ++ "/" ++ name ++ "/get" else f.getTopic
    setTopic := if f.setTopic.isEmpty then topic ++ "/" ++ name ++ "/set" else f.setTopic
    name := name
    owner := some topic }

def detach (f : Feature) : Feature := { f with owner := none }

end Feature

namespace Device

/-- Attach a feature under a name, in place of an older one of that name. -/
def addFeature (d : Device) (name : String) (f : Feature) : Device :=
  { d with features := d.features.insert name (f.attach d.topic name) }

def getFeature (d : Device) (name : String) : Except DeviceError Feature :=
  match d.features.find? name with
  | some f => .ok f
  | none => .error (.featureNotFound d.topic name)

def hasFeature (d : Device) (name : String) : Bool := d.features.contains name

/-- Take a feature off a device.  It keeps its name and topics. -/
def removeFeature (d : Device) (name : String) : Except DeviceError (Device × Feature) :=
  (d.getFeature name).map fun f => ({ d with features := d.features.erase name }, f.detach)

end Device
end HomeSync
