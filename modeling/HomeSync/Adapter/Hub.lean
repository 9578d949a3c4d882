import HomeSync.Adapter.Blueprint
import HomeSync.Bridge
import HomeSync.Bus.Basic
import HomeSync.Registry

/-
The adapter keeps the accessories on the bridge in step with the devices.

Every update of a device is turned into an accessory from scratch.  The new
accessory takes the place of the installed one only if it differs in structure
or in the topics of its features; otherwise the installed one stays with its
values.  Every feature that is shown is followed on the bus.
-/
namespace HomeSync

/-- The accessory that stands for a device topic, by its number. -/
structure Installed where
  accessory : Nat
  bindings : List Binding
  deriving DecidableEq

structure Hub where
  bus : Bus := {}
  inventory : Inventory := {}
  bridge : Bridge
  installed : SortedMap String Installed := SortedMap.empty

namespace Hub

def accessory? (h : Hub) (topic : String) : Option Accessory :=
  (h.installed.find? topic).bind fun i => h.inventory.get? i.accessory

def build (h : Hub) (a : Accessory) : Hub := { h with inventory := h.inventory.add a }

/-- Follow a feature: the characteristic hears what is retained and every later
report. -/
def follow (h : Hub) (accessory : Nat) (b : Binding) : Hub :=
  match b.feature.reportFilter with
  | .error _ => h
  | .ok filter =>
    let (bus, retained) := h.bus.subscribe filter (.characteristic accessory b.typeCode)
    { h with
      bus
      inventory :=
        retained.foldl (fun inv m => inv.report accessory b.typeCode m.text) h.inventory }

def attach (h : Hub) (i : Installed) : Hub :=
  i.bindings.foldl (fun h b => h.follow i.accessory b) h

def reportTopics (i : Installed) : List String := i.bindings.map (·.feature.getTopic)

/-- Stop following the features of an accessory.  Unsubscribing a topic cuts off
everybody on it, so the other accessories on these topics are subscribed
again. -/
def detach (h : Hub) (leaving : Installed) (remaining : SortedMap String Installed) : Hub :=
  let topics := reportTopics leaving
  if topics.isEmpty then h
  else
    remaining.values.foldl
      (fun h i =>
        (i.bindings.filter fun b => topics.contains b.feature.getTopic).foldl
          (fun h b => h.follow i.accessory b) h)
      { h with bus := h.bus.unsubscribe topics }

/-- Whether an installed accessory is what a blueprint asks for. -/
def fits (h : Hub) (i : Installed) (plan : Blueprint) : Bool :=
  (h.inventory.get? i.accessory).any (·.sameStructure plan.accessory)
    && i.bindings.length == plan.bindings.length
    && (i.bindings.zip plan.bindings).all fun p => p.1.sameTopics p.2

def install (h : Hub) (d : Device) : Hub :=
  let plan := d.blueprint
  let i : Installed := ⟨h.inventory.next, plan.bindings⟩
  let h := (h.build (plan.accessory.setReachable d.reachable)).attach i
  { h with
    bridge := h.bridge.add plan.accessory.id i.accessory
    installed := h.installed.insert d.topic i }

/-- Put a new accessory in the place of an installed one. -/
def renew (h : Hub) (d : Device) (current : Installed) : Hub :=
  let plan := d.blueprint
  let i : Installed := ⟨h.inventory.next, plan.bindings⟩
  let h := h.build (plan.accessory.setReachable d.reachable)
  let h := (h.detach current (h.installed.erase d.topic)).attach i
  { h with
    bridge := h.bridge.replace plan.accessory.id i.accessory
    installed := h.installed.insert d.topic i }

/-- Leave an installed accessory in place and pass the reachable flag on. -/
def keep (h : Hub) (d : Device) (current : Installed) : Hub :=
  { h with
    inventory := h.inventory.modify current.accessory fun a => a.setReachable d.reachable }

def teardown (h : Hub) (d : Device) (current : Installed) : Hub :=
  let remaining := h.installed.erase d.topic
  let h := h.detach current remaining
  let id := ((h.inventory.get? current.accessory).map (·.id)).getD 0
  { h with bridge := h.bridge.remove id, installed := remaining }

def deviceUpdated (h : Hub) (d : Device) : Hub :=
  match h.installed.find? d.topic with
  | none => h.install d
  | some current => if h.fits current d.blueprint then h.keep d current else h.renew d current

def deviceRemoved (h : Hub) (d : Device) : Hub :=
  match h.installed.find? d.topic with
  | none => h
  | some current => h.teardown d current

def handle (h : Hub) : Event → Hub
  | .updated d => h.deviceUpdated d
  | .removed d => h.deviceRemoved d

end Hub
end HomeSync
