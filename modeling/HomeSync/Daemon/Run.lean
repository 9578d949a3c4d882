import HomeSync.Config
import HomeSync.Daemon.Options
import HomeSync.House

/-
A run of the daemon.

The daemon sets up a house from its configuration, announces the seeds and lets
the house settle.  Asked to run once, it prints the registry and stops.
-/
namespace HomeSync

namespace Config

/-- The house with an adapter, a router and all seeds announced. -/
def start (c : Config) : House :=
  c.seeds.foldl (fun h s => h.publish (c.announcement s))
    ((House.create false c.bridge).addAdapter.startRouter c.router)

def house (c : Config) : House := c.start.settle

end Config

namespace House

def reportDevice (h : House) (d : Device) : List String :=
  let feature (name : String) (f : Feature) : String :=
    "    " ++ name ++ ": get=" ++ f.getTopic ++ " set=" ++ f.setTopic
  let accessory (a : Accessory) : String :=
    "    accessory 0x" ++ String.ofList (Hex.padded 16 a.id) ++ ", "
      ++ toString a.services.length ++ " services"
  ("  - " ++ d.name ++ " (" ++ d.topic ++ ") type=" ++ d.deviceType
      ++ " reachable=" ++ (if d.reachable then "true" else "false"))
    :: d.features.toList.map (fun f => feature f.1 f.2)
    ++ ((h.hub.accessory? d.topic).map accessory).toList

def reportLines (h : House) : List String :=
  ("Registered " ++ toString h.registry.size ++ " devices:")
    :: h.registry.devices.values.flatMap h.reportDevice

def report (h : House) : String := String.join (h.reportLines.map (· ++ "\n"))

end House

/-- How a run ends, or goes on. -/
structure Outcome where
  /-- The exit code, `none` as long as the daemon runs. -/
  exit : Option Nat
  output : String := ""
  complaint : Option String := none
  file : ConfigFile

namespace Outcome

def misuse (file : ConfigFile) : Outcome :=
  { exit := some 2, complaint := some "cannot read the command line, try --help", file }

def failure (file : ConfigFile) (complaint : String) : Outcome :=
  { exit := some 1, complaint := some complaint, file }

end Outcome

namespace Request

def path : Request → String
  | .run o => o.path
  | .help | .version => ({} : Options).path

/-- Do what was asked for, given the configuration file. -/
def serve (file : ConfigFile) : Request → Outcome
  | .help => { exit := some 0, output := helpText, file }
  | .version => { exit := some 0, output := versionText, file }
  | .run o =>
    if o.initConfig then
      match file.save Config.sample with
      | .ok file => { exit := some 0, file }
      | .error e => Outcome.failure file e.message
    else
      match Config.load file with
      | .error e => Outcome.failure file (e.message ++ " " ++ o.path)
      | .ok c =>
        if o.once then { exit := some 0, output := c.house.report, file }
        else { exit := none, file }

end Request
end HomeSync
