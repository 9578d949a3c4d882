import HomeSync.Message
import HomeSync.SortedMap.Basic
import HomeSync.Topic

/-
The message bus.

The bus keeps the subscriptions in the order in which they were made and the
last retained message of every topic.  Routers and characteristics only take
messages in.  A client answers a message with operations of its own; what it
does on its first deliveries is given when it subscribes, so a bus is a plain
value even though its clients act.
-/
namespace HomeSync

inductive Receiver where
  /-- A client, by its place in the list of clients. -/
  | client (n : Nat)
  | announcements (router : Nat)
  | departures (router : Nat)
  | characteristic (accessory : Nat) (typeCode : String)
  deriving DecidableEq

structure Subscription where
  filter : String
  receiver : Receiver
  deriving DecidableEq

/-- What a client can do on the bus.  A subscription makes a new client;
`reactions` lists the operations that it performs on its first delivery, on its
second one, and so on. -/
inductive Operation where
  | publish (p : Publication)
  | subscribe (filter name : String) (reactions : List (List Operation))
  | unsubscribe (filters : List String)

structure Client where
  name : String
  reactions : List (List Operation)

structure Delivery where
  receiver : Receiver
  message : Message
  deriving DecidableEq

structure Bus where
  recording : Bool := false
  subscriptions : List Subscription := []
  /-- The retained payload by topic, never an empty one. -/
  retained : SortedMap String Payload := SortedMap.empty
  published : List Publication := []
  clients : List Client := []

namespace Bus

/-! ## What the bus knows -/

/-- Who hears a message on a topic, once for each subscription. -/
def receivers (bus : Bus) (topic : String) : List Receiver :=
  (bus.subscriptions.filter fun s => Topic.accepts s.filter topic).map (·.receiver)

def retainedFor (bus : Bus) (filter : String) : List Message :=
  (bus.retained.toList.filter fun e => Topic.accepts filter e.1).map fun e => ⟨e.1, e.2⟩

def subscriptionCount (bus : Bus) (filter : String) : Nat :=
  (bus.subscriptions.filter fun s => s.filter == filter).length

def publishedOn (bus : Bus) (topic : String) : List Publication :=
  bus.published.filter fun p => p.topic == topic

/-! ## Changes that hand out no message -/

/-- Take note of a publication.  A retained one takes the place of the retained
message on its topic; with an empty payload it only clears the place. -/
def accept (bus : Bus) (p : Publication) : Bus :=
  { bus with
    published := if bus.recording then bus.published ++ [p] else bus.published
    retained :=
      if p.retain then
        if p.payload.isEmpty then bus.retained.erase p.topic
        else bus.retained.insert p.topic p.payload
      else bus.retained }

def register (bus : Bus) (filter : String) (receiver : Receiver) : Bus :=
  { bus with subscriptions := bus.subscriptions ++ [⟨filter, receiver⟩] }

/-- Drop every subscription under one of the filters, whoever made it. -/
def unsubscribe (bus : Bus) (filters : List String) : Bus :=
  { bus with subscriptions := bus.subscriptions.filter fun s => !filters.contains s.filter }

def clearPublished (bus : Bus) : Bus := { bus with published := [] }

/-- Subscribe a receiver that only takes messages in, and hand it what is
retained. -/
def subscribe (bus : Bus) (filter : String) (receiver : Receiver) : Bus × List Message :=
  (bus.register filter receiver, bus.retainedFor filter)

def addClient (bus : Bus) (name : String) (reactions : List (List Operation)) : Bus :=
  { bus with clients := bus.clients ++ [⟨name, reactions⟩] }

def clientName (bus : Bus) (n : Nat) : String := (bus.clients[n]?.map (·.name)).getD ""

end Bus
end HomeSync
