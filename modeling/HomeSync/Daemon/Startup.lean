import HomeSync.Daemon.Run

/-
The start of the daemon, task by task.

While the daemon announces its seeds, the router and the adapter are already at work,
and the request for announcements falls due at some time.  Asked to run once, the daemon
counts the devices that the seeds leave and waits until registry and adapter hold as
many.
-/
namespace HomeSync

namespace Seed

/-- For every topic among the seeds, whether the last one announces a device. -/
def expected (seeds : List Seed) : SortedMap String Bool :=
  seeds.foldl (fun known s => known.insert s.topic (!s.metadata.isEmpty)) SortedMap.empty

/-- How many devices the seeds leave. -/
def present (seeds : List Seed) : Nat := (expected seeds).values.countP id

end Seed

/-- A house and the seeds that are still to be announced, in their order. -/
structure Startup where
  house : House
  unsent : List Seed

/-- One turn of a task. -/
inductive Stage where
  /-- The next seed is announced. -/
  | announce
  /-- Time passes, and what is due by then is published. -/
  | wait (duration : Nat)
  /-- The router takes its oldest message. -/
  | route
  /-- The adapter takes its oldest event. -/
  | handle

namespace Config

/-- The house before the first seed is announced. -/
def startup (c : Config) : Startup :=
  ⟨(House.create false c.bridge).addAdapter.startRouter c.router, c.seeds⟩

/-- The house with all seeds announced and nothing else done. -/
def announced (c : Config) : Startup := ⟨c.start, []⟩

end Config

namespace Startup

def step (c : Config) (u : Startup) : Stage → Startup
  | .announce =>
    match u.unsent with
    | [] => u
    | s :: rest => ⟨u.house.publish (c.announcement s), rest⟩
  | .wait duration => { u with house := { u.house with clock := u.house.clock + duration }.ring }
  | .route => { u with house := u.house.routeNext 0 }
  | .handle => { u with house := u.house.handleNext }

def run (c : Config) (u : Startup) (stages : List Stage) : Startup := stages.foldl (step c) u

/-- All seeds are announced and routed, and the adapter has taken all events. -/
def Quiescent (u : Startup) : Prop :=
  u.unsent = [] ∧ (∀ r ∈ u.house.routers, r.inbox = []) ∧
    ∀ id, u.house.adapterStream = some id → u.house.registry.pending id = []

end Startup
end HomeSync
