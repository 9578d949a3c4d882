import HomeSync.Accessory.Basic
import HomeSync.Router
import HomeSync.Toml.Reader

/-
The configuration: topics, the nameplate of the bridge and the devices that are
announced at the start.

Everything has a usual value.  A file may hold more than is named here, but what
is named must have the right type.
-/
namespace HomeSync

structure Seed where
  topic : String
  /-- The metadata of the device; the empty text deletes the device. -/
  metadata : String := ""
  deriving DecidableEq

def usualNameplate : Nameplate :=
  { name := "hemtjanst", manufacturer := "hemtjanst", model := "v0", serialNumber := "000-000" }

structure Config where
  router : RouterConfig := {}
  bridge : Nameplate := usualNameplate
  seeds : List Seed := []
  deriving DecidableEq

inductive ConfigFile where
  | missing
  /-- There is not even a directory that the file could be in. -/
  | unreachable
  | directory
  | content (bytes : Payload)
  deriving DecidableEq

inductive ConfigError where
  | reading
  | parsing
  deriving DecidableEq

namespace ConfigError

def message : ConfigError → String
  | .reading => "reading"
  | .parsing => "parsing"

end ConfigError

namespace Config

/-! ## Reading -/

def textOr (usual : String) : Option Toml → Option String
  | none => some usual
  | some (.string s) => some s
  | some _ => none

/-- A number that is not negative, zero if it is missing. -/
def countOr (usual : Nat) : Option Toml → Option Nat
  | none => some usual
  | some (.integer n) => if 0 ≤ n then some n.toNat else none
  | some _ => none

def routerOfToml? : Option Toml → Option RouterConfig
  | none => some {}
  | some t =>
    match t.fields? ["announce", "leave", "discover", "discover_delay_ms"] with
    | some [announce, leave, discover, delay] => do
      let usual : RouterConfig := {}
      let announce ← textOr usual.announce announce
      let leave ← textOr usual.leave leave
      let discover ← textOr usual.discover discover
      let delay ← countOr usual.delay delay
      return { announce, leave, discover, delay }
    | _ => none

def bridgeOfToml? : Option Toml → Option Nameplate
  | none => some usualNameplate
  | some t =>
    match t.fields? ["name", "manufacturer", "model", "serial_number"] with
    | some [name, manufacturer, model, serialNumber] => do
      let name ← textOr usualNameplate.name name
      let manufacturer ← textOr usualNameplate.manufacturer manufacturer
      let model ← textOr usualNameplate.model model
      let serialNumber ← textOr usualNameplate.serialNumber serialNumber
      return { name, manufacturer, model, serialNumber }
    | _ => none

/-- A seed, which must name its topic. -/
def seedOfToml? (t : Toml) : Option Seed :=
  match t.fields? ["topic", "metadata"] with
  | some [some (.string topic), metadata] =>
    (textOr "" metadata).map fun metadata => { topic, metadata }
  | _ => none

def seedsOfToml? : Option Toml → Option (List Seed)
  | none => some []
  | some t => t.elements?.bind fun items => items.mapM seedOfToml?

def ofToml? (t : Toml) : Option Config :=
  match t.fields? ["topics", "bridge", "seed"] with
  | some [topics, bridge, seeds] => do
    let router ← routerOfToml? topics
    let bridge ← bridgeOfToml? bridge
    let seeds ← seedsOfToml? seeds
    return { router, bridge, seeds }
  | _ => none

/-- Load the configuration.  Without a file everything is as usual. -/
def load : ConfigFile → Except ConfigError Config
  | .missing | .unreachable => .ok {}
  | .directory => .error .reading
  | .content bytes =>
    match Utf8.decode? bytes with
    | none => .error .reading
    | some text =>
      match (Toml.parse? text).bind ofToml? with
      | some c => .ok c
      | none => .error .parsing

def announceTopic (c : Config) (s : Seed) : String := Topic.child c.router.announce s.topic

def announcement (c : Config) (s : Seed) : Publication :=
  ⟨c.announceTopic s, Utf8.encode s.metadata, atLeastOnce, true⟩

/-! ## The sample file -/

def sampleMetadata : String :=
  "\x7b\"name\":\"Kitchen Light\",\"type\":\"lightbulb\",\"feature\":\x7b\"on\":\x7b\x7d\x7d\x7d"

def sampleLines : List String :=
  ["[topics]",
   "announce = \"announce\"",
   "leave = \"leave\"",
   "discover = \"discover\"",
   "discover_delay_ms = 0",
   "",
   "[bridge]",
   "name = \"hemtjanst\"",
   "manufacturer = \"hemtjanst\"",
   "model = \"v0\"",
   "serial_number = \"000-000\"",
   "",
   "[[seed]]",
   "topic = \"lightbulb/kitchen\"",
   "metadata = '" ++ sampleMetadata ++ "'"]

/-- A file to start from: everything as usual, and one seed. -/
def sample : String := String.join (sampleLines.map (· ++ "\n"))

end Config

inductive SaveError where
  | noDirectory
  | isDirectory
  deriving DecidableEq

namespace SaveError

def message : SaveError → String
  | .noDirectory => "No such file or directory (os error 2)"
  | .isDirectory => "Is a directory (os error 21)"

end SaveError

namespace ConfigFile

/-- Write a text in place of whatever the file held. -/
def save (text : String) : ConfigFile → Except SaveError ConfigFile
  | .unreachable => .error .noDirectory
  | .directory => .error .isDirectory
  | .missing | .content _ => .ok (.content (Utf8.encode text))

end ConfigFile
end HomeSync
