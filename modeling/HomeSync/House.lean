import HomeSync.Adapter.Hub
import HomeSync.Bus.Run
import HomeSync.Router

/-
A whole house: bus, registry, routers, adapter and bridge.

What happens at once is the publication on the bus with all its consequences.
The rest waits: the inbox of a router, the events of the adapter and the
requests for announcements that are due later.  `settle` does all the work that
waits, and only `sleep` moves the clock.
-/
namespace HomeSync

inductive Note where
  | received (name : String) (m : Message)
  | written (name : String) (v : Value)
  deriving DecidableEq

structure Alarm where
  due : Nat
  publication : Publication
  deriving DecidableEq

structure House where
  hub : Hub
  registry : Registry := {}
  routers : List Router := []
  /-- The routers with work to do, in the order in which they were woken. -/
  awake : List Nat := []
  adapterStream : Option Nat := none
  alarms : List Alarm := []
  /-- The time in milliseconds. -/
  clock : Nat := 0
  notes : List Note := []

namespace House

def create (recording : Bool) (info : Nameplate) : House :=
  { hub := { bus := { recording }, bridge := Bridge.create info } }

def note (h : House) (n : Note) : House := { h with notes := h.notes ++ [n] }

/-! ## The bus -/

/-- Put a message into the inbox of a router and wake it. -/
def send (h : House) (router : Nat) (i : Inbound) : House :=
  { h with
    routers := h.routers.modify router fun r => r.receive i
    awake := if h.awake.contains router then h.awake else h.awake ++ [router] }

def sendAll (h : House) (router : Nat) (is : List Inbound) : House :=
  is.foldl (fun h i => h.send router i) h

/-- What a delivery does beside the reaction of a client. -/
def receive (h : House) (d : Delivery) : House :=
  match d.receiver with
  | .client n => h.note (.received (h.hub.bus.clientName n) d.message)
  | .announcements n =>
    h.sendAll n ((h.routers[n]?.bind fun r => r.config.announcement? d.message).toList)
  | .departures n => h.sendAll n (departure? d.message).toList
  | .characteristic n typeCode =>
    { h with hub.inventory := h.hub.inventory.report n typeCode d.message.text }

def perform (h : House) (op : Operation) : House :=
  let (bus, deliveries) := h.hub.bus.perform op
  deliveries.foldl receive { h with hub.bus := bus }

def publish (h : House) (p : Publication) : House := h.perform (.publish p)

def publishIfOk (h : House) : Except DeviceError Publication → House
  | .ok p => h.publish p
  | .error _ => h

/-! ## Controllers -/

/-- Write to the first characteristic of an accessory that passes a test.  The
value is stored before the write is forwarded. -/
def writeWhere? (h : House) (accessory : Nat) (p : Characteristic → Bool) (v : Value) :
    Option House := do
  let a ← h.hub.inventory.get? accessory
  let c ← a.characteristics.find? p
  let written ← c.write? v
  let h : House :=
    { h with
      hub.inventory := h.hub.inventory.modify accessory fun a => a.modify p fun _ => written }
  return match c.onWrite with
    | some (.forward f) => h.publishIfOk (f.request v.toWire)
    | some (.note name) => h.note (.written name v)
    | none => h

def write? (h : House) (accessoryId characteristicId : Nat) (v : Value) : Option House :=
  (h.hub.bridge.find? accessoryId).bind fun n => h.writeWhere? n (·.id == characteristicId) v

/-! ## Routers -/

/-- Start a router: its two subscriptions with what they replay, and the alarm
for the request. -/
def startRouter (h : House) (config : RouterConfig) : House :=
  let n := h.routers.length
  let (bus, announced) := h.hub.bus.subscribe config.announceFilter (.announcements n)
  let (bus, left) := bus.subscribe config.leave (.departures n)
  let inbox := announced.filterMap config.announcement? ++ left.filterMap departure?
  { h with
    hub.bus := bus
    routers := h.routers ++ [⟨config, inbox⟩]
    awake := h.awake ++ [n]
    alarms := h.alarms ++ [⟨h.clock + config.delay, config.discovery⟩] }

/-- Whether nothing can come in for a router any more. -/
def routerFinished (h : House) (n : Nat) : Bool :=
  h.hub.bus.subscriptions.all fun s =>
    s.receiver != .announcements n && s.receiver != .departures n

def routeNext (h : House) (n : Nat) : House :=
  match h.routers[n]? with
  | some ⟨_, i :: _⟩ =>
    { h with
      registry := h.registry.apply i
      routers := h.routers.modify n fun r => { r with inbox := r.inbox.tail } }
  | _ => h

def routeAll (h : House) (n : Nat) : House :=
  let inbox := (h.routers[n]?.map (·.inbox)).getD []
  { h with
    registry := inbox.foldl Registry.apply h.registry
    routers := h.routers.modify n fun r => { r with inbox := [] } }

/-! ## The adapter -/

def addAdapter (h : House) (listing : Listing := Listing.byTopic) : House :=
  let (registry, id) := h.registry.subscribe listing
  { h with registry, adapterStream := some id }

def handleNext (h : House) : House :=
  match h.adapterStream with
  | none => h
  | some id =>
    match h.registry.pending id with
    | [] => h
    | e :: _ => { h with hub := h.hub.handle e, registry := h.registry.skip id 1 }

def handleAll (h : House) : House :=
  match h.adapterStream with
  | none => h
  | some id =>
    { h with
      hub := (h.registry.pending id).foldl Hub.handle h.hub
      registry := h.registry.drain id }

/-! ## Time -/

/-- Publish what is due, the earliest first. -/
def ring (h : House) : House :=
  let due := h.alarms.filter fun a => a.due ≤ h.clock
  let order := due.mergeSort fun a b => a.due ≤ b.due
  order.foldl (fun h a => h.publish a.publication)
    { h with alarms := h.alarms.filter fun a => !(a.due ≤ h.clock) }

/-- Do all the work that waits.  Routing wakes no router and the adapter changes
nothing that a router or the registry would hear of, so once through is
enough. -/
def settle (h : House) : House :=
  let h := h.ring
  (h.awake.foldl routeAll { h with awake := [] }).handleAll

def wakeAt (h : House) (t : Nat) : House := { h with clock := t }.settle

/-- The times up to a limit at which something is due, earliest first and each
once. -/
def dueTimes (h : House) (limit : Nat) : List Nat :=
  (((h.alarms.map (·.due)).filter (· ≤ limit)).mergeSort (· ≤ ·)).eraseDups

/-- Let time pass.  What is due on the way is done at its time. -/
def sleep (h : House) (duration : Nat) : House :=
  let limit := h.clock + duration
  ((h.dueTimes limit).foldl wakeAt h).wakeAt limit

end House
end HomeSync
