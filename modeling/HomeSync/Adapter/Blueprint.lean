import HomeSync.Accessory.Basic

/-
What a device looks like on the bridge.

Of the features of a device those with a known name are shown, each type of
characteristic once, in the main service that the device type calls for.  A
blueprint is the accessory that comes of it, together with the features that its
characteristics show.
-/
namespace HomeSync

/-- A feature that is shown as a characteristic. -/
structure Binding where
  feature : Feature
  capability : Capability
  deriving DecidableEq

namespace Binding

def typeCode (b : Binding) : String := b.capability.typeCode

/-- A bound of the metadata, where zero means that there is none. -/
def bound (n : Option Int64) (fallback : Option Binary64) : Option Binary64 :=
  match n with
  | some n => if n = 0 then fallback else some (Binary64.ofInt n.toInt)
  | none => fallback

def characteristic (b : Binding) : Characteristic :=
  let c := b.capability
  { typeCode := c.typeCode
    format := c.format
    min := if c.isNumeric then bound b.feature.min c.min else c.min
    max := if c.isNumeric then bound b.feature.max c.max else c.max
    step := if c.isNumeric then bound b.feature.step c.step else c.step
    writable := c.writable
    onWrite := some (.forward b.feature) }

/-- Whether two bindings show a feature of one name on the same topics. -/
def sameTopics (a b : Binding) : Bool :=
  a.feature.name == b.feature.name && a.feature.getTopic == b.feature.getTopic
    && a.feature.setTopic == b.feature.setTopic

/-- The bindings of features, one for each type code that is not taken yet. -/
def ofFeatures (taken : List String) : List (String × Feature) → List Binding
  | [] => []
  | (name, feature) :: rest =>
    match Capability.find? name with
    | none => ofFeatures taken rest
    | some capability =>
      if taken.contains capability.typeCode then ofFeatures taken rest
      else ⟨feature, capability⟩ :: ofFeatures (capability.typeCode :: taken) rest

end Binding

structure Blueprint where
  accessory : Accessory
  bindings : List Binding

namespace Device

def mainService? (d : Device) : Option ServiceKind := ServiceKind.find? d.deviceType

/-- The features that are shown.  Without a main service there is no place for
them. -/
def bindings (d : Device) : List Binding :=
  if d.mainService?.isSome then Binding.ofFeatures [] d.features.toList else []

/-- The nameplate of a device.  A device without a name is called by its
topic. -/
def nameplate (d : Device) : Nameplate :=
  { name := if d.name.isEmpty then d.topic else d.name
    manufacturer := d.manufacturer
    model := d.model
    serialNumber := d.serialNumber }

/-- The blueprint of a device.  A main service that would be empty is left
out. -/
def blueprint (d : Device) : Blueprint :=
  let bare := Accessory.create (Identity.topicId d.topic) d.nameplate
    (Category.ofDeviceType d.deviceType)
  let accessory :=
    match d.mainService? with
    | some kind =>
      if d.bindings.isEmpty then bare
      else
        bare.addService
          { typeCode := kind.typeCode, characteristics := d.bindings.map (·.characteristic) }
    | none => bare
  ⟨accessory, d.bindings⟩

end Device

end HomeSync
