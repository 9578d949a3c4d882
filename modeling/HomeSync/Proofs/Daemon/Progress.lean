import HomeSync.Proofs.Adapter.Built
import HomeSync.Proofs.Daemon.Seeds
import HomeSync.Proofs.House.Awake

/-
How far the daemon has come.

The seeds are announced in their order, they go through the inbox of the router in this
order, and what the registry makes of them goes through one stream to the adapter.  So a
state of the startup is told by how many seeds are routed and how many of their events
are taken.  The one thing that could be lost is an announcement: a device that names the
filter of the router as the topic of a feature cuts it off when it goes.
-/
namespace HomeSync

namespace Config

/-- Every seed reaches the registry as an announcement, and nothing else does. -/
structure Sensible (c : Config) : Prop where
  levels : ∀ s ∈ c.seeds, '/' ∈ s.topic.toList
  readable : ∀ s ∈ c.seeds, s.metadata ≠ "" → (Metadata.decode? s.payload).isSome
  unheard : ∀ s ∈ c.seeds, Topic.accepts c.router.leave (c.announceTopic s) = false
  quiet : Topic.accepts c.router.leave c.router.discover = false
  apart : Topic.below? c.router.announce c.router.discover = none

theorem sensible_iff (c : Config) :
    c.Sensible ↔ (∀ s ∈ c.seeds, '/' ∈ s.topic.toList) ∧
      (∀ s ∈ c.seeds, s.metadata ≠ "" → (Metadata.decode? s.payload).isSome) ∧
      (∀ s ∈ c.seeds, Topic.accepts c.router.leave (c.announceTopic s) = false) ∧
      Topic.accepts c.router.leave c.router.discover = false ∧
      Topic.below? c.router.announce c.router.discover = none :=
  ⟨fun h => ⟨h.levels, h.readable, h.unheard, h.quiet, h.apart⟩,
    fun ⟨hlevels, hreadable, hunheard, hquiet, hapart⟩ =>
      ⟨hlevels, hreadable, hunheard, hquiet, hapart⟩⟩

instance (c : Config) : Decidable c.Sensible := decidable_of_iff' _ (sensible_iff c)

/-- With the usual topics it is enough that seeds have two levels and can be read. -/
theorem sensible_of_usual {c : Config} (hc : c.router = {})
    (hlevels : ∀ s ∈ c.seeds, '/' ∈ s.topic.toList)
    (hreadable : ∀ s ∈ c.seeds, s.metadata ≠ "" → (Metadata.decode? s.payload).isSome) :
    c.Sensible := by
  refine ⟨hlevels, hreadable, fun s _ => ?_, ?_, ?_⟩
  · have hplain : Topic.Plain c.router.leave := by
      rw [hc]
      decide
    have hne : c.router.leave ≠ c.announceTopic s := by
      intro heq
      -- the two differ in their first letters
      have hlists := congrArg String.toList heq
      rw [Config.announceTopic, Topic.toList_child, hc] at hlists
      simp at hlists
    rwa [← Bool.not_eq_true, Topic.accepts_iff_of_plain hplain]
  · rw [hc]
    decide
  · rw [hc]
    decide

/-- No feature of a seed names the filter of the router as its topic. -/
def Unclaimed (c : Config) : Prop :=
  ∀ s ∈ c.seeds, ∀ m, Metadata.decode? s.payload = some m →
    ∀ name f, m.features.find? name = some f → f.getTopic ≠ c.router.announceFilter

theorem unclaimed_iff (c : Config) :
    c.Unclaimed ↔ ∀ s ∈ c.seeds, ∀ m ∈ Metadata.decode? s.payload, ∀ e ∈ m.features.entries,
      e.2.getTopic ≠ c.router.announceFilter := by
  constructor
  · intro h s hs m hm e he
    exact h s hs m hm e.1 e.2 (SortedMap.find?_eq_some_iff.mpr he)
  · intro h s hs m hm name f hf
    exact h s hs m hm (name, f) (SortedMap.find?_eq_some_iff.mp hf)

instance (c : Config) : Decidable c.Unclaimed := decidable_of_iff' _ (unclaimed_iff c)

theorem sensible_of_subset {c : Config} (hc : c.Sensible) {seeds : List Seed}
    (hsub : ∀ s ∈ seeds, s ∈ c.seeds) : ({ c with seeds } : Config).Sensible :=
  ⟨fun s hs => hc.levels s (hsub s hs), fun s hs => hc.readable s (hsub s hs),
    fun s hs => hc.unheard s (hsub s hs), hc.quiet, hc.apart⟩

theorem unclaimed_of_subset {c : Config} (hfree : c.Unclaimed) {seeds : List Seed}
    (hsub : ∀ s ∈ seeds, s ∈ c.seeds) : ({ c with seeds } : Config).Unclaimed :=
  fun s hs => hfree s (hsub s hs)

theorem legible {c : Config} (hc : c.Sensible) : Seed.Legible c.seeds := by
  refine ⟨fun s hs hempty => ?_, hc.readable⟩
  have hlevels := hc.levels s hs
  rw [hempty] at hlevels
  exact absurd hlevels (by simp)

theorem announcement?_announcement {c : Config} {s : Seed} (h : '/' ∈ s.topic.toList) :
    c.router.announcement? (c.announcement s).message = some s.inbound :=
  RouterConfig.announcement?_eq_some_iff.mpr ⟨s.topic, rfl, h, rfl⟩

theorem announcement?_discovery {c : Config} (hc : c.Sensible) :
    c.router.announcement? c.router.discovery.message = none := by
  have hbelow : Topic.below? c.router.announce c.router.discovery.message.topic = none := hc.apart
  rw [RouterConfig.announcement?, hbelow]

end Config

/-! ## What the router hears -/

namespace Bus

/-- What a publication brings the first router. -/
def brings (bus : Bus) (config : RouterConfig) (m : Message) : List Inbound :=
  (((bus.receivers m.topic).map fun r => (⟨r, m⟩ : Delivery)).filter
    (·.receiver.ofRouter 0)).flatMap config.inbound

theorem brings_eq (bus : Bus) (config : RouterConfig) (m : Message) :
    bus.brings config m =
      (bus.foreign.filter fun s => Topic.accepts s.filter m.topic && s.receiver.ofRouter 0).flatMap
        fun s => config.inbound ⟨s.receiver, m⟩ := by
  have hsame : ∀ s : Subscription,
      (s.receiver.ofRouter 0 && Topic.accepts s.filter m.topic) =
        ((Topic.accepts s.filter m.topic && s.receiver.ofRouter 0) &&
          !s.receiver.isCharacteristic) := by
    intro s
    cases s.receiver <;> simp [Receiver.ofRouter, Receiver.isCharacteristic, Bool.and_comm]
  rw [brings, receivers, List.map_map, List.filter_map, List.flatMap_map, foreign,
    List.filter_filter, List.filter_filter]
  simp only [← hsame]
  rfl

/-- As long as nothing is heard as a leave message, only the announcement counts. -/
theorem brings_of_posts {bus : Bus} {config : RouterConfig} {m : Message}
    (hforeign : bus.foreign.Sublist (posts config 0))
    (hleave : Topic.accepts config.leave m.topic = false) :
    bus.brings config m =
      if ⟨config.announceFilter, .announcements 0⟩ ∈ bus.foreign then
        (config.announcement? m).toList
      else [] := by
  have hannounced : (if Topic.accepts config.announceFilter m.topic then
      (config.announcement? m).toList else []) = (config.announcement? m).toList := by
    cases h : config.announcement? m with
    | none => exact ite_self _
    | some i => rw [if_pos (RouterConfig.accepts_of_announcement? h)]
  have hcases : bus.foreign = [] ∨ bus.foreign = [⟨config.leave, .departures 0⟩] ∨
      bus.foreign = [⟨config.announceFilter, .announcements 0⟩] ∨
      bus.foreign = posts config 0 := by
    have hmem := List.mem_sublists.mpr hforeign
    simpa [posts, List.sublists, or_comm, or_left_comm] using hmem
  rw [brings_eq, ← hannounced]
  rcases hcases with h | h | h | h <;> rw [h]
  · rfl
  · simp [hleave]
  · cases ha : Topic.accepts config.announceFilter m.topic <;>
      simp [ha, Receiver.ofRouter, RouterConfig.inbound]
  · cases ha : Topic.accepts config.announceFilter m.topic <;>
      simp [ha, hleave, posts, Receiver.ofRouter, RouterConfig.inbound]

end Bus

/-- The adapter holds as many accessories as it was told of devices. -/
theorem Hub.size_of_shows {h : Hub} {told : SortedMap String Device} (hs : h.Shows told) :
    h.installed.size = told.size := by
  have hkeys := congrArg List.length (SortedMap.keys_eq_of_find? hs.alike)
  rwa [SortedMap.keys, SortedMap.keys, List.length_map, List.length_map] at hkeys

/-! ## The state of the startup -/

/-- The seeds that are routed and those in the inbox, the events that are taken and those
that wait for the adapter. -/
structure Underway (c : Config) (u : Startup) (routed waiting : List Seed)
    (taken queue : List Event) : Prop where
  sound : u.house.hub.Sound
  clients : u.house.hub.bus.clients = []
  foreign : u.house.hub.bus.foreign.Sublist (Bus.posts c.router 0)
  alarms : ∀ a ∈ u.house.alarms, a.publication = c.router.discovery
  stream : u.house.adapterStream = some 0
  seeds : c.seeds = routed ++ waiting ++ u.unsent
  routers : u.house.routers = [⟨c.router, waiting.map Seed.inbound⟩]
  devices : u.house.registry.devices = Seed.devices routed
  follows : u.house.registry.Follows 0 queue
  events : Seed.events routed = taken ++ queue
  shows : u.house.hub.Shows (taken.foldl Event.record SortedMap.empty)

namespace Underway

variable {c : Config} {u : Startup} {h : House} {unsent routed waiting : List Seed}
  {taken queue : List Event}

theorem legible (hu : Underway c u routed waiting taken queue) (hc : c.Sensible) :
    Seed.Legible routed := by
  refine Seed.legible_of_subset (Config.legible hc) fun s hs => ?_
  rw [hu.seeds, List.append_assoc]
  exact List.mem_append_left _ hs

/-- The clock, the notes and the routers that are awake do not matter, and alarms may have
gone off. -/
theorem of_house_eq (hu : Underway c ⟨h, unsent⟩ routed waiting taken queue) {h' : House}
    (hhub : h'.hub = h.hub) (hregistry : h'.registry = h.registry)
    (hrouters : h'.routers = h.routers) (hstream : h'.adapterStream = h.adapterStream)
    (halarms : ∀ a ∈ h'.alarms, a ∈ h.alarms) :
    Underway c ⟨h', unsent⟩ routed waiting taken queue := by
  obtain ⟨hub, registry, routers, awake, stream, alarms, clock, notes⟩ := h'
  subst hhub hregistry hrouters hstream
  exact ⟨hu.sound, hu.clients, hu.foreign, fun a ha => hu.alarms a (halarms a ha), hu.stream,
    hu.seeds, hu.routers, hu.devices, hu.follows, hu.events, hu.shows⟩

/-! ### Publications -/

theorem routers_publish (hclients : h.hub.bus.clients = []) {r : Router} (hrouters : h.routers = [r])
    (p : Publication) :
    (h.publish p).routers = [⟨r.config, r.inbox ++ h.hub.bus.brings r.config p.message⟩] := by
  have hlength : (h.publish p).routers.length = 1 := by
    have hkept : (h.publish p).routers.length = h.routers.length :=
      House.perform_keeps (·.routers.length) (fun _ _ => rfl) (fun _ _ _ => List.length_modify ..)
        (fun _ _ => rfl) h (.publish p)
    rw [hkept, hrouters]
    rfl
  have hfirst : (h.publish p).routers[0]? =
      some ⟨r.config, r.inbox ++ h.hub.bus.brings r.config p.message⟩ := by
    rw [House.publish_eq_hand hclients]
    have hstart : ({ h with hub.bus := h.hub.bus.accept p } : House).routers[0]? =
        some ⟨r.config, r.inbox⟩ := congrArg (·[0]?) hrouters
    exact House.router_foldl_receive _ hstart
  obtain ⟨r', hr'⟩ := List.length_eq_one_iff.mp hlength
  rw [hr'] at hfirst ⊢
  rw [Option.some.inj hfirst]

/-- A publication goes into the inbox, and it tells neither registry nor adapter
anything. -/
theorem publish (hu : Underway c ⟨h, unsent⟩ routed waiting taken queue) {p : Publication}
    {more unsent' : List Seed} (hseeds : unsent = more ++ unsent')
    (hbrings : h.hub.bus.brings c.router p.message = more.map Seed.inbound) :
    Underway c ⟨h.publish p, unsent'⟩ routed (waiting ++ more) taken queue := by
  obtain ⟨hsame, hsound⟩ := House.untouched_step hu.sound (m := .operate (.publish p)) trivial
  have hbus : (h.publish p).hub.bus = h.hub.bus.accept p := by
    rw [House.publish, House.bus_perform, Bus.perform_publish hu.clients]
  have halarms : (h.publish p).alarms = h.alarms :=
    House.perform_keeps (·.alarms) (fun _ _ => rfl) (fun _ _ _ => rfl) (fun _ _ => rfl) h _
  refine ⟨hsound, ?_, ?_, ?_, hsame.adapterStream.trans hu.stream, ?_, ?_, ?_, ?_, hu.events,
    Hub.shows_of_faces hu.shows hsame.installed hsame.faces⟩
  · rw [hbus]
    exact hu.clients
  · rw [hbus]
    exact hu.foreign
  · rw [halarms]
    exact hu.alarms
  · rw [hu.seeds, hseeds]
    simp only [List.append_assoc]
  · rw [routers_publish hu.clients hu.routers, hbrings, List.map_append]
  · exact (congrArg Registry.devices hsame.registry).trans hu.devices
  · show (h.publish p).registry.Follows 0 queue
    have hregistry : (h.publish p).registry = h.registry := hsame.registry
    rw [hregistry]
    exact hu.follows

/-- A seed is heard as long as the router listens to announcements. -/
theorem publish_seed (hu : Underway c ⟨h, unsent⟩ routed waiting taken queue) (hc : c.Sensible)
    (hlistens : ⟨c.router.announceFilter, .announcements 0⟩ ∈ h.hub.bus.foreign) {s : Seed}
    {rest : List Seed} (hunsent : unsent = s :: rest) :
    Underway c ⟨h.publish (c.announcement s), rest⟩ routed (waiting ++ [s]) taken queue := by
  have hs : s ∈ c.seeds := by
    rw [hu.seeds, hunsent]
    simp
  have hleave : Topic.accepts c.router.leave (c.announcement s).message.topic = false :=
    hc.unheard s hs
  refine hu.publish hunsent ?_
  rw [Bus.brings_of_posts hu.foreign hleave, if_pos hlistens,
    Config.announcement?_announcement (hc.levels s hs)]
  rfl

/-- The request for announcements is heard by nobody. -/
theorem publish_discovery (hu : Underway c ⟨h, unsent⟩ routed waiting taken queue)
    (hc : c.Sensible) :
    Underway c ⟨h.publish c.router.discovery, unsent⟩ routed waiting taken queue := by
  have hleave : Topic.accepts c.router.leave c.router.discovery.message.topic = false := hc.quiet
  have hnone : h.hub.bus.brings c.router c.router.discovery.message = [].map Seed.inbound := by
    rw [Bus.brings_of_posts hu.foreign hleave, Config.announcement?_discovery hc]
    exact ite_self _
  have hsplit : unsent = [] ++ unsent := rfl
  have hall := hu.publish hsplit hnone
  rwa [List.append_nil] at hall

theorem ring (hu : Underway c ⟨h, unsent⟩ routed waiting taken queue) (hc : c.Sensible) :
    Underway c ⟨h.ring, unsent⟩ routed waiting taken queue := by
  refine House.ring_induct (P := fun h => Underway c ⟨h, unsent⟩ routed waiting taken queue) ?_ ?_
  · exact hu.of_house_eq rfl rfl rfl rfl fun a ha => (List.mem_filter.mp ha).1
  · intro h' a ha hu'
    rw [hu.alarms a ha]
    exact hu'.publish_discovery hc

/-! ### Routing and taking -/

theorem routeNext_eq (hrouters : h.routers = [⟨c.router, waiting.map Seed.inbound⟩]) {s : Seed}
    {rest : List Seed} (hwaiting : waiting = s :: rest) :
    h.routeNext 0 =
      { h with
        registry := h.registry.call s.call
        routers := [⟨c.router, rest.map Seed.inbound⟩] } := by
  rw [House.routeNext, hrouters, hwaiting]
  rfl

theorem routeNext (hu : Underway c ⟨h, unsent⟩ routed waiting taken queue) {s : Seed}
    {rest : List Seed} (hwaiting : waiting = s :: rest) :
    Underway c ⟨h.routeNext 0, unsent⟩ (routed ++ [s]) rest taken
      (queue ++ s.call.events (Seed.devices routed)) := by
  rw [routeNext_eq hu.routers hwaiting]
  refine ⟨hu.sound, hu.clients, hu.foreign, hu.alarms, hu.stream, ?_, rfl, ?_, ?_, ?_, hu.shows⟩
  · rw [hu.seeds, hwaiting]
    simp only [List.append_assoc, List.cons_append, List.nil_append]
  · apply SortedMap.ext_find?
    intro topic
    rw [Seed.devices_concat, ← hu.devices]
    exact Registry.devices_call h.registry s.call topic
  · have hfollows := Registry.follows_call hu.follows s.call
    rwa [hu.devices] at hfollows
  · rw [Seed.events_concat, hu.events, List.append_assoc]

theorem handleNext_eq (hu : Underway c ⟨h, unsent⟩ routed waiting taken queue) :
    h.handleNext =
      match queue with
      | [] => h
      | e :: _ => { h with hub := h.hub.handle e, registry := h.registry.skip 0 1 } := by
  have hstream : h.adapterStream = some 0 := hu.stream
  rw [House.handleNext, hstream]
  dsimp only
  rw [Registry.pending_of_follows hu.follows]
  cases queue <;> rfl

theorem handleNext (hu : Underway c ⟨h, unsent⟩ routed waiting taken queue) {e : Event}
    {rest : List Event} (hqueue : queue = e :: rest) :
    Underway c ⟨h.handleNext, unsent⟩ routed waiting (taken ++ [e]) rest := by
  subst hqueue
  have ht := Hub.takes_handle h.hub e
  have hforeign := Hub.foreign_of_cutting (Hub.cutting_handle h.hub e)
  rw [handleNext_eq hu]
  refine ⟨Hub.sound_of_takes hu.sound ht, (Hub.clients_of_takes ht).trans hu.clients, ?_,
    hu.alarms, hu.stream, hu.seeds, hu.routers, hu.devices, Registry.follows_skip hu.follows 1,
    ?_, ?_⟩
  · -- a change only takes subscriptions of others away
    rw [hforeign]
    exact List.filter_sublist.trans hu.foreign
  · rw [hu.events, List.append_assoc]
    rfl
  · rw [List.foldl_append]
    exact Hub.shows_of_takes hu.sound ht hu.shows

/-! ### One stage -/

/-- Whatever stage comes next, the seeds and events go on in their order.  Only an
announcement that is still to be made needs the router to listen. -/
theorem step (hu : Underway c u routed waiting taken queue) (hc : c.Sensible)
    (hlistens : u.unsent = [] ∨
      ⟨c.router.announceFilter, .announcements 0⟩ ∈ u.house.hub.bus.foreign) (stage : Stage) :
    ∃ routed' waiting' taken' queue', Underway c (u.step c stage) routed' waiting' taken' queue' ∧
      routed <+: routed' ∧ taken <+: taken' := by
  obtain ⟨h, unsent⟩ := u
  cases stage with
  | announce =>
    cases unsent with
    | nil => exact ⟨routed, waiting, taken, queue, hu, List.prefix_rfl, List.prefix_rfl⟩
    | cons s rest =>
      have hmem := hlistens.resolve_left (by simp)
      exact ⟨routed, waiting ++ [s], taken, queue, hu.publish_seed hc hmem rfl,
        List.prefix_rfl, List.prefix_rfl⟩
  | wait duration =>
    have hlater : Underway c ⟨{ h with clock := h.clock + duration }, unsent⟩ routed waiting taken
        queue := hu.of_house_eq rfl rfl rfl rfl fun _ ha => ha
    exact ⟨routed, waiting, taken, queue, hlater.ring hc, List.prefix_rfl, List.prefix_rfl⟩
  | route =>
    cases waiting with
    | nil =>
      have hfirst : h.routers[0]? = some ⟨c.router, []⟩ := congrArg (·[0]?) hu.routers
      have hsame : h.routeNext 0 = h := House.routeNext_of_nil hfirst
      refine ⟨routed, [], taken, queue, ?_, List.prefix_rfl, List.prefix_rfl⟩
      rw [Startup.step, hsame]
      exact hu
    | cons s rest =>
      exact ⟨routed ++ [s], rest, taken, _, hu.routeNext rfl, List.prefix_append _ _,
        List.prefix_rfl⟩
  | handle =>
    cases queue with
    | nil =>
      refine ⟨routed, waiting, taken, [], ?_, List.prefix_rfl, List.prefix_rfl⟩
      rw [Startup.step, handleNext_eq hu]
      exact hu
    | cons e rest =>
      exact ⟨routed, waiting, taken ++ [e], rest, hu.handleNext rfl, List.prefix_rfl,
        List.prefix_append _ _⟩

end Underway

end HomeSync
