import HomeSync.Accessory.Characteristic
import HomeSync.Catalog
import HomeSync.Identity

/-
Accessories: what a controller sees of a device.

An accessory holds services and a service holds characteristics.  Every
accessory has a service with its nameplate and one with its reachable flag.
Ids come from type codes, and the slots whose code gives none are counted from
one in the order in which they stand.
-/
namespace HomeSync

structure Service where
  id : Nat := 0
  typeCode : String
  characteristics : List Characteristic := []
  deriving DecidableEq

structure Nameplate where
  name : String := ""
  manufacturer : String := ""
  model : String := ""
  serialNumber : String := ""
  deriving DecidableEq, Inhabited

structure Accessory where
  id : Nat
  category : Nat
  info : Nameplate
  services : List Service
  deriving DecidableEq

namespace Service

/-- Whether two services agree in everything but values. -/
def sameStructure (a b : Service) : Bool :=
  a.id == b.id && a.typeCode == b.typeCode
    && a.characteristics.length == b.characteristics.length
    && (a.characteristics.zip b.characteristics).all fun p => p.1.sameStructure p.2

end Service

/-! ## Ids -/

namespace Accessory

/-- The id of a slot and the running number for the slots after it. -/
def slotId (next : Nat) (typeCode : String) : Nat × Nat :=
  match Identity.typeId? typeCode with
  | some id => (id, next)
  | none => (next, next + 1)

def numberCharacteristics (next : Nat) : List Characteristic → List Characteristic × Nat
  | [] => ([], next)
  | c :: rest =>
    let slot := slotId next c.typeCode
    let rest := numberCharacteristics slot.2 rest
    (c.numbered slot.1 :: rest.1, rest.2)

/-- Give ids to services and their characteristics, a service before its
characteristics. -/
def numberServices (next : Nat) : List Service → List Service
  | [] => []
  | s :: rest =>
    let slot := slotId next s.typeCode
    let characteristics := numberCharacteristics slot.2 s.characteristics
    { s with id := slot.1, characteristics := characteristics.1 }
      :: numberServices characteristics.2 rest

def assignIds (a : Accessory) : Accessory := { a with services := numberServices 1 a.services }

/-! ## Construction -/

def informationService (info : Nameplate) : Service :=
  let text (typeCode s : String) : Characteristic :=
    { typeCode, format := .string, value := .string s }
  { typeCode := TypeCode.accessoryInformation
    characteristics :=
      [text TypeCode.name info.name,
       text TypeCode.manufacturer info.manufacturer,
       text TypeCode.model info.model,
       text TypeCode.serialNumber info.serialNumber,
       { typeCode := TypeCode.identify, format := .bool, writable := true }] }

def bridgingService : Service :=
  { typeCode := TypeCode.bridgingState
    characteristics := [{ typeCode := TypeCode.reachable, format := .bool }] }

/-- An accessory with its two fixed services, not reachable yet. -/
def create (id : Nat) (info : Nameplate) (category : Nat) : Accessory :=
  assignIds { id, category, info, services := [informationService info, bridgingService] }

def addService (a : Accessory) (s : Service) : Accessory :=
  assignIds { a with services := a.services ++ [s] }

/-- Let go of every characteristic and give the ids that were held back. -/
def release (a : Accessory) : Accessory :=
  let free (c : Characteristic) : Characteristic := { c with held := false }
  assignIds { a with
    services := a.services.map fun s => { s with characteristics := s.characteristics.map free } }

/-! ## Characteristics -/

def characteristics (a : Accessory) : List Characteristic :=
  a.services.flatMap (·.characteristics)

def findType? (a : Accessory) (typeCode : String) : Option Characteristic :=
  a.characteristics.find? (·.typeCode == typeCode)

def findId? (a : Accessory) (id : Nat) : Option Characteristic :=
  a.characteristics.find? (·.id == id)

/-- Change the first characteristic that passes a test. -/
def modifyFirst (p : Characteristic → Bool) (f : Characteristic → Characteristic) :
    List Service → List Service
  | [] => []
  | s :: rest =>
    match s.characteristics.findIdx? p with
    | some i => { s with characteristics := s.characteristics.modify i f } :: rest
    | none => s :: modifyFirst p f rest

def modify (a : Accessory) (p : Characteristic → Bool) (f : Characteristic → Characteristic) :
    Accessory :=
  { a with services := modifyFirst p f a.services }

def modifyType (a : Accessory) (typeCode : String) (f : Characteristic → Characteristic) :
    Accessory :=
  a.modify (·.typeCode == typeCode) f

def reachable (a : Accessory) : Bool :=
  (a.findType? TypeCode.reachable).any (·.value == .bool true)

def setReachable (a : Accessory) (reachable : Bool) : Accessory :=
  a.modifyType TypeCode.reachable fun c => { c with value := .bool reachable }

def sameStructure (a b : Accessory) : Bool :=
  a.id == b.id && a.category == b.category && a.info == b.info
    && a.services.length == b.services.length
    && (a.services.zip b.services).all fun p => p.1.sameStructure p.2

end Accessory
end HomeSync
