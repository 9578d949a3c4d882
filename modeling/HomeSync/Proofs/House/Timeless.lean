import HomeSync.Proofs.Bus.Unnoticed
import HomeSync.Proofs.House.Awake

/-
A house without delays.

A run of starts, operations, watchers and times that pass is turned into one in which no
time passes and no router asks for announcements: every delay is zero, no alarm rings, and a
sleep is a rest in which the routers do what waits.  As long as nobody minds the requests,
the two runs go through the same registries.  So a registry, with all that its watchers were
told, does not tell how long the routers waited.
-/
namespace HomeSync

def RouterConfig.timeless (c : RouterConfig) : RouterConfig := { c with delay := 0 }

def Router.timeless (r : Router) : Router := { r with config := r.config.timeless }

namespace House

/-! ## Runs -/

/-- One thing that happens to a house with routers and watchers. -/
inductive Happening where
  | start (config : RouterConfig)
  | operate (op : Operation)
  /-- Somebody begins to follow the registry. -/
  | watch (listing : Listing)
  /-- A router takes its oldest message. -/
  | route (n : Nat)
  /-- What is due is published. -/
  | ring
  /-- All the work that waits is done. -/
  | settle
  | sleep (duration : Nat)

def after (h : House) : Happening → House
  | .start config => h.startRouter config
  | .operate op => h.perform op
  | .watch listing => { h with registry := (h.registry.subscribe listing).1 }
  | .route n => h.routeNext n
  | .ring => h.ring
  | .settle => h.settle
  | .sleep duration => h.sleep duration

def afterAll (h : House) (run : List Happening) : House := run.foldl after h

/-- What is left of it without delays, requests and a clock. -/
def Happening.timeless : Happening → Option Happening
  | .start config => some (.start config.timeless)
  | .ring => none
  | .sleep _ => some .settle
  | a => some a

/-- The topic that a start adds to those that requests are published on. -/
def Happening.discover? : Happening → Option String
  | .start config => some config.discover
  | _ => none

/-- No router listens to one of the topics, and nobody who does will ever do anything. -/
def Happening.Discreet (quiet : List String) : Happening → Prop
  | .start config => config.discover ∈ quiet ∧
      ∀ topic ∈ quiet, Topic.accepts config.announceFilter topic = false ∧
        Topic.accepts config.leave topic = false
  | .operate op => op.Discreet quiet
  | _ => True

/-- The topics of requests are nobody's concern in a run. -/
def Discreet (run : List Happening) : Prop :=
  ∀ a ∈ run, a.Discreet (run.filterMap Happening.discover?)

/-- What a run of discreet happenings leaves: nobody minds what the alarms will publish. -/
structure Apart (quiet : List String) (h : House) : Prop where
  bus : h.hub.bus.Discreet quiet []
  alarms : ∀ a ∈ h.alarms, a.publication.topic ∈ quiet
  stream : h.adapterStream = none
  woken : h.Woken

section Apart

variable {quiet : List String} {h : House}

theorem apart_of_eq {h' : House} (ha : Apart quiet h) (hbus : h'.hub.bus = h.hub.bus)
    (halarms : ∀ a ∈ h'.alarms, a ∈ h.alarms) (hstream : h'.adapterStream = h.adapterStream)
    (hw : h'.Woken) : Apart quiet h' :=
  ⟨by rw [hbus]; exact ha.bus, fun a hmem => ha.alarms a (halarms a hmem),
    hstream.trans ha.stream, hw⟩

theorem apart_perform (ha : Apart quiet h) {op : Operation} (hop : op.Discreet quiet) :
    Apart quiet (h.perform op) := by
  refine ⟨?_, ?_, ?_, woken_perform ha.woken op⟩
  · rw [bus_perform]
    exact (Bus.discreet_perform ha.bus hop).1
  · have hkept : (h.perform op).alarms = h.alarms :=
      perform_keeps (·.alarms) (fun _ _ => rfl) (fun _ _ _ => rfl) (fun _ _ => rfl) h op
    rw [hkept]
    exact ha.alarms
  · have hkept : (h.perform op).adapterStream = h.adapterStream :=
      perform_keeps (·.adapterStream) (fun _ _ => rfl) (fun _ _ _ => rfl) (fun _ _ => rfl) h op
    exact hkept.trans ha.stream

theorem apart_ring (ha : Apart quiet h) : Apart quiet h.ring :=
  ring_induct (P := Apart quiet)
    (apart_of_eq ha rfl (fun _ hmem => (List.mem_filter.mp hmem).1) rfl
      (woken_of_eq ha.woken rfl rfl))
    fun _ _ _ ha' => apart_perform ha' (.publish _)

theorem apart_workOff (ha : Apart quiet h) : Apart quiet h.workOff := by
  have hkept : h.workOff.hub.bus = h.hub.bus ∧ h.workOff.alarms = h.alarms ∧
      h.workOff.adapterStream = h.adapterStream :=
    ⟨foldl_routeAll_keeps (·.hub.bus) (fun _ _ _ => rfl) _ _,
      foldl_routeAll_keeps (·.alarms) (fun _ _ _ => rfl) _ _,
      foldl_routeAll_keeps (·.adapterStream) (fun _ _ _ => rfl) _ _⟩
  obtain ⟨hbus, halarms, hstream⟩ := hkept
  exact apart_of_eq ha hbus (fun a hmem => halarms ▸ hmem) hstream (woken_workOff ha.woken)

theorem apart_settle (ha : Apart quiet h) : Apart quiet h.settle := by
  rw [settle_eq ha.stream]
  exact apart_workOff (apart_ring ha)

theorem apart_wakeAt (ha : Apart quiet h) (t : Nat) : Apart quiet (h.wakeAt t) :=
  apart_settle (apart_of_eq ha rfl (fun _ hmem => hmem) rfl (woken_of_eq ha.woken rfl rfl))

end Apart

/-! ## Houses that differ by their delays -/

/-- Both houses have the same registry and will go on to have the same one. -/
structure Alike (quiet : List String) (h h' : House) : Prop where
  bus : Bus.Alike quiet h.hub.bus h'.hub.bus
  registry : h.registry = h'.registry
  routers : h.routers.map Router.timeless = h'.routers.map Router.timeless
  awake : h.awake = h'.awake

namespace Alike

variable {quiet : List String} {h h' h'' : House}

theorem refl (quiet : List String) (h : House) : Alike quiet h h := ⟨.refl quiet _, rfl, rfl, rfl⟩

theorem symm (hs : Alike quiet h h') : Alike quiet h' h :=
  ⟨hs.bus.symm, hs.registry.symm, hs.routers.symm, hs.awake.symm⟩

theorem trans (hs : Alike quiet h h') (hs' : Alike quiet h' h'') : Alike quiet h h'' :=
  ⟨hs.bus.trans hs'.bus, hs.registry.trans hs'.registry, hs.routers.trans hs'.routers,
    hs.awake.trans hs'.awake⟩

theorem length_routers (hs : Alike quiet h h') : h.routers.length = h'.routers.length := by
  simpa using congrArg List.length hs.routers

theorem getElem?_routers (hs : Alike quiet h h') (n : Nat) :
    h.routers[n]?.map Router.timeless = h'.routers[n]?.map Router.timeless := by
  rw [← List.getElem?_map, ← List.getElem?_map, hs.routers]

/-- What is read off a router without its delay is the same. -/
theorem bind_router (hs : Alike quiet h h') (n : Nat) {α : Type} {f : Router → Option α}
    (hf : ∀ r, f r.timeless = f r) : h.routers[n]?.bind f = h'.routers[n]?.bind f := by
  have htimeless : ∀ o : Option Router, o.bind f = (o.map Router.timeless).bind f := by
    intro o
    cases o with
    | none => rfl
    | some r => exact (hf r).symm
  rw [htimeless, hs.getElem?_routers, ← htimeless]

/-- The inboxes are changed without regard to delays. -/
theorem modify (hs : Alike quiet h h') (n : Nat) {f : Router → Router}
    (hf : ∀ r, (f r).timeless = f r.timeless) :
    (h.routers.modify n f).map Router.timeless = (h'.routers.modify n f).map Router.timeless := by
  have hmap : ∀ routers : List Router, (routers.modify n f).map Router.timeless =
      (routers.map Router.timeless).modify n f := by
    intro routers
    apply List.ext_getElem?
    intro k
    rw [List.getElem?_map, List.getElem?_modify, List.getElem?_modify, List.getElem?_map]
    cases routers[k]? with
    | none => rfl
    | some r => by_cases hk : n = k <;> simp [hk, hf]
  rw [hmap, hmap, hs.routers]

/-! ### Deliveries -/

theorem send (hs : Alike quiet h h') (n : Nat) (i : Inbound) :
    Alike quiet (h.send n i) (h'.send n i) := by
  refine ⟨hs.bus, hs.registry, hs.modify n fun _ => rfl, ?_⟩
  rw [House.send, House.send, hs.awake]

theorem sendAll (hs : Alike quiet h h') (n : Nat) (is : List Inbound) :
    Alike quiet (h.sendAll n is) (h'.sendAll n is) := by
  induction is generalizing h h' with
  | nil => exact hs
  | cons i rest ih => exact ih (hs.send n i)

theorem receive (hs : Alike quiet h h') (d : Delivery) :
    Alike quiet (h.receive d) (h'.receive d) := by
  rw [House.receive, House.receive]
  cases d.receiver with
  | client n => exact ⟨hs.bus, hs.registry, hs.routers, hs.awake⟩
  | announcements n =>
    dsimp only
    rw [hs.bind_router n fun _ => rfl]
    exact hs.sendAll n _
  | departures n => exact hs.sendAll n _
  | characteristic n typeCode => exact ⟨hs.bus, hs.registry, hs.routers, hs.awake⟩

/-- What clients are told makes no difference. -/
theorem receive_client (h : House) {d : Delivery} (hd : ∃ n, d.receiver = .client n) :
    Alike quiet h (h.receive d) := by
  obtain ⟨n, hn⟩ := hd
  rw [House.receive, hn]
  exact ⟨.refl quiet _, rfl, rfl, rfl⟩

/-- Deliveries on the topics need not be made. -/
theorem foldl_receive_filter (hs : Alike quiet h h') {ds : List Delivery}
    (hds : ∀ d ∈ ds, d.message.topic ∈ quiet → ∃ n, d.receiver = .client n) :
    Alike quiet (ds.foldl House.receive h)
      ((ds.filter fun d => !quiet.contains d.message.topic).foldl House.receive h') := by
  induction ds generalizing h h' with
  | nil => exact hs
  | cons d rest ih =>
    have hrest := fun d' hd' => hds d' (List.mem_cons_of_mem d hd')
    by_cases hquiet : d.message.topic ∈ quiet
    · rw [List.filter_cons_of_neg (by simpa using hquiet)]
      exact ih ((receive_client h (hds d List.mem_cons_self hquiet)).symm.trans hs) hrest
    · rw [List.filter_cons_of_pos (by simpa using hquiet)]
      exact ih (hs.receive d) hrest

/-! ### What happens -/

theorem perform (hs : Alike quiet h h') (ha : Apart quiet h) (ha' : Apart quiet h')
    {op : Operation} (hop : op.Discreet quiet) : Alike quiet (h.perform op) (h'.perform op) := by
  obtain ⟨hbus, hdeliveries⟩ := Bus.alike_perform hs.bus ha.bus ha'.bus hop
  have hready : Alike quiet { h with hub.bus := (h.hub.bus.perform op).1 }
      { h' with hub.bus := (h'.hub.bus.perform op).1 } := ⟨hbus, hs.registry, hs.routers, hs.awake⟩
  have hfirst := hready.foldl_receive_filter (Bus.discreet_perform ha.bus hop).2
  have hsame : Alike quiet { h' with hub.bus := (h'.hub.bus.perform op).1 }
      { h' with hub.bus := (h'.hub.bus.perform op).1 } := .refl quiet _
  have hsecond := hsame.foldl_receive_filter (Bus.discreet_perform ha'.bus hop).2
  rw [hdeliveries] at hfirst
  exact hfirst.trans hsecond.symm

/-- Whoever does not listen to the topics is handed the same of what is retained. -/
theorem retainedFor (hs : Alike quiet h h') {filter : String}
    (hfilter : ∀ topic ∈ quiet, Topic.accepts filter topic = false) :
    h.hub.bus.retainedFor filter = h'.hub.bus.retainedFor filter := by
  have hall : ∀ bus : Bus, (bus.retainedFor filter).filter (fun m => !quiet.contains m.topic) =
      bus.retainedFor filter := by
    intro bus
    refine List.filter_eq_self.mpr fun m hm => ?_
    by_contra hquiet
    have hno := hfilter m.topic (by simpa using hquiet)
    rw [(Bus.mem_retainedFor.mp hm).1] at hno
    exact absurd hno.symm Bool.false_ne_true
  rw [← hall, Bus.filter_retainedFor hs.bus, hall]

theorem startRouter (hs : Alike quiet h h') {config : RouterConfig}
    (hc : (Happening.start config).Discreet quiet) :
    Alike quiet (h.startRouter config) (h'.startRouter config.timeless) := by
  obtain ⟨-, hdeaf⟩ := hc
  have hinbox : (h.startRouter config).routers.map Router.timeless =
      h.routers.map Router.timeless ++ [⟨config.timeless,
        (h.hub.bus.retainedFor config.announceFilter).filterMap config.announcement? ++
          (h.hub.bus.retainedFor config.leave).filterMap departure?⟩] := List.map_append
  have hinbox' : (h'.startRouter config.timeless).routers.map Router.timeless =
      h'.routers.map Router.timeless ++ [⟨config.timeless,
        (h'.hub.bus.retainedFor config.announceFilter).filterMap config.announcement? ++
          (h'.hub.bus.retainedFor config.leave).filterMap departure?⟩] := List.map_append
  refine ⟨⟨?_, hs.bus.clients, hs.bus.plan, hs.bus.retained⟩, hs.registry, ?_, ?_⟩
  · show h.hub.bus.subscriptions ++ [_] ++ [_] = h'.hub.bus.subscriptions ++ [_] ++ [_]
    rw [hs.bus.subscriptions, hs.length_routers]
    rfl
  · rw [hinbox, hinbox', hs.routers, hs.retainedFor fun topic htopic => (hdeaf topic htopic).1,
      hs.retainedFor fun topic htopic => (hdeaf topic htopic).2]
  · show h.awake ++ _ = h'.awake ++ _
    rw [hs.awake, hs.length_routers]

theorem routeNext (hs : Alike quiet h h') (n : Nat) :
    Alike quiet (h.routeNext n) (h'.routeNext n) := by
  have hrouter := hs.getElem?_routers n
  rw [House.routeNext, House.routeNext]
  cases hr : h.routers[n]? with
  | none =>
    rw [hr] at hrouter
    rw [Option.map_eq_none_iff.mp hrouter.symm]
    exact hs
  | some r =>
    rw [hr] at hrouter
    obtain ⟨r', hr', hsame⟩ := Option.map_eq_some_iff.mp hrouter.symm
    obtain ⟨config, inbox⟩ := r
    obtain ⟨config', inbox'⟩ := r'
    obtain rfl : inbox' = inbox := congrArg Router.inbox hsame
    rw [hr']
    cases inbox' with
    | nil => exact hs
    | cons i rest =>
      exact ⟨hs.bus, congrArg (·.apply i) hs.registry, hs.modify n fun _ => rfl, hs.awake⟩

theorem routeAll (hs : Alike quiet h h') (n : Nat) :
    Alike quiet (h.routeAll n) (h'.routeAll n) := by
  have hinbox : h.routers[n]?.map (·.inbox) = h'.routers[n]?.map (·.inbox) := by
    rw [Option.map_eq_bind, Option.map_eq_bind]
    exact hs.bind_router n fun _ => rfl
  refine ⟨hs.bus, ?_, hs.modify n fun _ => rfl, hs.awake⟩
  rw [House.routeAll, House.routeAll, hinbox, hs.registry]

theorem workOff (hs : Alike quiet h h') : Alike quiet h.workOff h'.workOff := by
  have hall : ∀ (ns : List Nat) (h h' : House), Alike quiet h h' →
      Alike quiet (ns.foldl House.routeAll h) (ns.foldl House.routeAll h') := by
    intro ns
    induction ns with
    | nil => exact fun _ _ hs => hs
    | cons n rest ih => exact fun _ _ hs => ih _ _ (hs.routeAll n)
  rw [House.workOff, House.workOff, hs.awake]
  exact hall _ _ _ ⟨hs.bus, hs.registry, hs.routers, rfl⟩

/-- A message on one of the topics is published, and that is all. -/
theorem publish_quiet (ha : Apart quiet h) {p : Publication} (hp : p.topic ∈ quiet) :
    Alike quiet h (h.publish p) := by
  obtain ⟨hbus, hdeliveries, -⟩ := Bus.perform_publish_quiet ha.bus hp
  have hready : Alike quiet { h with hub.bus := (h.hub.bus.perform (.publish p)).1 } h :=
    ⟨hbus.symm, rfl, rfl, rfl⟩
  have hnone : (h.hub.bus.perform (.publish p)).2.filter
      (fun d => !quiet.contains d.message.topic) = [] :=
    List.filter_eq_nil_iff.mpr fun d hd => by simpa using hdeliveries d hd
  have hall := hready.foldl_receive_filter (Bus.discreet_perform ha.bus (.publish p)).2
  rw [hnone] at hall
  exact hall.symm

theorem ring (ha : Apart quiet h) : Alike quiet h h.ring := by
  have hboth : Apart quiet h.ring ∧ Alike quiet h h.ring := by
    refine ring_induct (P := fun h' => Apart quiet h' ∧ Alike quiet h h') ⟨?_, ?_⟩ ?_
    · exact apart_of_eq ha rfl (fun _ hmem => (List.mem_filter.mp hmem).1) rfl
        (woken_of_eq ha.woken rfl rfl)
    · exact ⟨.refl quiet _, rfl, rfl, rfl⟩
    · rintro h' a hmem ⟨ha', hs'⟩
      exact ⟨apart_perform ha' (.publish _), hs'.trans (publish_quiet ha' (ha.alarms a hmem))⟩
  exact hboth.2

theorem settle (hs : Alike quiet h h') (ha : Apart quiet h) (ha' : Apart quiet h') :
    Alike quiet h.settle h'.settle := by
  rw [settle_eq ha.stream, settle_eq ha'.stream]
  exact ((ring ha).symm.trans (hs.trans (ring ha'))).workOff

/-- After a rest there is nothing to do until something happens. -/
theorem settle_settle (ha : Apart quiet h) : Alike quiet h.settle h.settle.settle := by
  have hidle : ∀ h : House, h.awake = [] → h.workOff = h := by
    intro h hawake
    obtain ⟨hub, registry, routers, awake, stream, alarms, clock, notes⟩ := h
    obtain rfl : awake = [] := hawake
    rfl
  have hrested : h.settle.awake = [] := by
    rw [settle_eq ha.stream]
    exact awake_workOff _
  have ha' := apart_settle ha
  have hrung : Alike quiet h.settle h.settle.ring := ring ha'
  rw [settle_eq ha'.stream, hidle _ (hrung.awake.symm.trans hrested)]
  exact hrung

/-- To let time pass is to rest, however often something is due on the way. -/
theorem sleep (hs : Alike quiet h h') (ha : Apart quiet h) (ha' : Apart quiet h')
    (duration : Nat) : Alike quiet (h.sleep duration) h'.settle := by
  have hwake : ∀ {g : House}, Apart quiet g → (Alike quiet g h' ∨ Alike quiet g h'.settle) →
      ∀ t, Alike quiet (g.wakeAt t) h'.settle := by
    intro g hg hone t
    have hlater : Alike quiet { g with clock := t } g := ⟨.refl quiet _, rfl, rfl, rfl⟩
    have hg' : Apart quiet { g with clock := t } :=
      apart_of_eq hg rfl (fun _ hmem => hmem) rfl (woken_of_eq hg.woken rfl rfl)
    rcases hone with hone | hone
    · exact (hlater.trans hone).settle hg' ha'
    · exact ((hlater.trans hone).settle hg' (apart_settle ha')).trans (settle_settle ha').symm
  have hall := List.foldlRecOn (motive := fun g =>
      Apart quiet g ∧ (Alike quiet g h' ∨ Alike quiet g h'.settle))
    (h.dueTimes (h.clock + duration)) wakeAt ⟨ha, .inl hs⟩
    fun g hg t _ => ⟨apart_wakeAt hg.1 t, .inr (hwake hg.1 hg.2 t)⟩
  exact hwake hall.1 hall.2 _

end Alike

/-! ## Two runs -/

section Runs

variable {quiet : List String} {h h' : House}

/-- One step is matched by what is left of it, if anything is. -/
theorem alike_after (hs : Alike quiet h h') (ha : Apart quiet h) (ha' : Apart quiet h')
    {a : Happening} (hd : a.Discreet quiet) :
    Alike quiet (h.after a) (h'.afterAll a.timeless.toList) := by
  cases a with
  | start config => exact hs.startRouter hd
  | operate op => exact hs.perform ha ha' hd
  | watch listing =>
    exact ⟨hs.bus, congrArg (fun r => (r.subscribe listing).1) hs.registry, hs.routers, hs.awake⟩
  | route n => exact hs.routeNext n
  | ring => exact (Alike.ring ha).symm.trans hs
  | settle => exact hs.settle ha ha'
  | sleep duration => exact hs.sleep ha ha' duration

end Runs

end House
end HomeSync
