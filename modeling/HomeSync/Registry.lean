import HomeSync.Device.Metadata

/-
The registry of known devices.

The registry is told of announcements and departures.  Every change is queued as
an event for every open stream, with the device as it is at that moment.  A new
stream starts with all known devices, so whoever follows the events of a stream
from its start always has the devices of the registry.

Where several devices are gone through at once, the order among them means
nothing to a follower.  It is a parameter, and by topic unless it is given.
-/
namespace HomeSync

inductive Event where
  /-- The device was announced or its reachable flag was set. -/
  | updated (d : Device)
  | removed (d : Device)
  deriving DecidableEq

namespace Event

def device : Event → Device
  | .updated d | .removed d => d

end Event

/-- Events that somebody has yet to take, oldest first. -/
structure Stream where
  id : Nat
  queue : List Event
  /-- Whether there is still somebody to take them. -/
  live : Bool := true
  deriving DecidableEq

/-- An order in which devices are gone through, each of them once. -/
structure Listing where
  list : List Device → List Device
  perm (ds : List Device) : (list ds).Perm ds

def Listing.byTopic : Listing := ⟨id, fun ds => List.Perm.refl ds⟩

structure Registry where
  /-- The devices by the topic that they were announced under. -/
  devices : SortedMap String Device := SortedMap.empty
  streams : List Stream := []
  nextStream : Nat := 0

namespace Device

/-- The device that an announcement under a topic describes. -/
def announced? (topic : String) (payload : Payload) : Option Device :=
  match ({ topic } : Device).applyMetadata payload with
  | .ok d => some { d with reachable := true }
  | .error _ => none

/-- Whether a leave message with a token means the device. -/
def leavesWith (d : Device) (token : String) : Bool :=
  d.topic == token || d.lastWill == some token

def afterLeave (d : Device) (token : String) : Device :=
  if d.leavesWith token then { d with reachable := false } else d

end Device

namespace Registry

/-- Queue an event for every live stream and forget the others. -/
def notify (r : Registry) (e : Event) : Registry :=
  { r with
    streams := (r.streams.filter (·.live)).map fun s => { s with queue := s.queue ++ [e] } }

def remove (r : Registry) (topic : String) : Registry :=
  match r.devices.find? topic with
  | some d => notify { r with devices := r.devices.erase topic } (.removed d)
  | none => r

/-- Take in an announcement.  An empty payload deletes the device, any other one
replaces it; one that cannot be read is ignored. -/
def add (r : Registry) (topic : String) (payload : Payload) : Registry :=
  if payload.isEmpty then r.remove topic
  else
    match Device.announced? topic payload with
    | some d => notify { r with devices := r.devices.insert topic d } (.updated d)
    | none => r

/-- The devices that a leave message means, as they are after it. -/
def departing (r : Registry) (token : String) (listing : Listing) : List Device :=
  ((listing.list r.devices.values).filter (·.leavesWith token)).map (·.afterLeave token)

/-- Take in a leave message.  It may mean any number of devices. -/
def leave (r : Registry) (token : String) (listing : Listing := Listing.byTopic) : Registry :=
  (r.departing token listing).foldl (fun r d => r.notify (.updated d))
    { r with devices := r.devices.map fun _ d => d.afterLeave token }

def get (r : Registry) (topic : String) : Except DeviceError Device :=
  match r.devices.find? topic with
  | some d => .ok d
  | none => .error (.notFound topic)

def size (r : Registry) : Nat := r.devices.size

def request (r : Registry) (topic feature value : String) : Except DeviceError Publication := do
  (← (← r.get topic).getFeature feature).request value

/-! ## Streams -/

/-- Open a stream.  Its id is the number of streams opened before. -/
def subscribe (r : Registry) (listing : Listing := Listing.byTopic) : Registry × Nat :=
  ({ r with
      streams := r.streams ++
        [{ id := r.nextStream, queue := (listing.list r.devices.values).map .updated }]
      nextStream := r.nextStream + 1 },
    r.nextStream)

/-- Let go of a stream.  The registry only notices with the next event. -/
def drop (r : Registry) (id : Nat) : Registry :=
  { r with streams := r.streams.map fun s =>
      if s.id == id then { s with queue := [], live := false } else s }

def pending (r : Registry) (id : Nat) : List Event :=
  match r.streams.find? fun s => s.id == id with
  | some s => s.queue
  | none => []

def skip (r : Registry) (id count : Nat) : Registry :=
  { r with streams := r.streams.map fun s =>
      if s.id == id then { s with queue := s.queue.drop count } else s }

def drain (r : Registry) (id : Nat) : Registry := r.skip id (r.pending id).length

end Registry
end HomeSync
