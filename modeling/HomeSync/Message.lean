import HomeSync.Text.Utf8

/-
Messages on the bus.
-/
namespace HomeSync

structure Message where
  topic : String
  payload : Payload
  deriving DecidableEq

namespace Message

/-- The payload as text, with replacements for what is not text. -/
def text (m : Message) : String := Utf8.decodeLossy m.payload

end Message

/-- The quality of service of everything this library publishes itself. -/
def atLeastOnce : Nat := 1

/-- A message as it is published.  A retained message is kept for subscribers
that come later. -/
structure Publication where
  topic : String
  payload : Payload
  qos : Nat
  retain : Bool
  deriving DecidableEq

namespace Publication

def message (p : Publication) : Message := ⟨p.topic, p.payload⟩

end Publication
end HomeSync
