import HomeSync.Message
import HomeSync.Registry
import HomeSync.Text.Blank
import HomeSync.Topic

/-
Routers carry messages from the bus into the registry.

A router listens to the announcements below one topic and to leave messages on
another one.  What it hears waits in one inbox, so announcements and departures
are applied in the order in which they came.
-/
namespace HomeSync

structure RouterConfig where
  /-- Devices announce themselves below this topic. -/
  announce : String := "announce"
  leave : String := "leave"
  discover : String := "discover"
  /-- How long the router waits before it asks, in milliseconds. -/
  delay : Nat := 0
  deriving DecidableEq, Inhabited

inductive Inbound where
  | announce (topic : String) (payload : Payload)
  | leave (token : String)
  deriving DecidableEq

structure Router where
  config : RouterConfig
  /-- What has come in and is not applied yet, oldest first. -/
  inbox : List Inbound := []
  deriving DecidableEq

namespace RouterConfig

def announceFilter (c : RouterConfig) : String := Topic.child c.announce "#"

def discovery (c : RouterConfig) : Publication :=
  ⟨c.discover, Utf8.encode "1", atLeastOnce, true⟩

/-- Read a message below the announce topic.  The topic of a device has at least
two levels. -/
def announcement? (c : RouterConfig) (m : Message) : Option Inbound :=
  match Topic.below? c.announce m.topic with
  | some topic => if topic.toList.contains '/' then some (.announce topic m.payload) else none
  | none => none

end RouterConfig

/-- Read a leave message: the token without the blanks around it. -/
def departure? (m : Message) : Option Inbound :=
  let token := Text.trim m.text
  if token.isEmpty then none else some (.leave token)

namespace Router

def receive (r : Router) (i : Inbound) : Router := { r with inbox := r.inbox ++ [i] }

end Router

namespace Registry

def apply (r : Registry) : Inbound → Registry
  | .announce topic payload => r.add topic payload
  | .leave token => r.leave token

end Registry
end HomeSync
