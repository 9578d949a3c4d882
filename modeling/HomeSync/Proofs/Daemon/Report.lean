import HomeSync.Proofs.Adapter.Display
import HomeSync.Proofs.Daemon.Listening
import HomeSync.Proofs.House.Interleaving
import HomeSync.Proofs.Text.ByteOrder

/-
What the daemon prints.

Once all tasks are through, registry and adapter hold as many devices as the daemon
waits for, and the report lists what the last seed of each topic says.  This does not
depend on the order in which the tasks took their turns, nor on the order of seeds for
different topics.
-/
namespace HomeSync

/-! ## Working off what waits at once -/

namespace Registry

theorem skip_skip (r : Registry) (id a b : Nat) : (r.skip id a).skip id b = r.skip id (a + b) := by
  rw [skip, skip, skip, List.map_map]
  congr 1
  apply List.map_congr_left
  intro s _
  by_cases hid : (s.id == id) = true
  · simp only [Function.comp_apply, if_pos hid, List.drop_drop]
  · simp only [Function.comp_apply, if_neg hid]

end Registry

namespace Underway

variable {c : Config} {h : House} {unsent routed waiting : List Seed} {taken queue : List Event}

theorem routeAll_eq {config : RouterConfig} {inbox : List Inbound}
    (hrouters : h.routers = [⟨config, inbox⟩]) :
    h.routeAll 0 =
      { h with registry := inbox.foldl Registry.apply h.registry, routers := [⟨config, []⟩] } := by
  rw [House.routeAll, hrouters]
  rfl

theorem routeAll (hu : Underway c ⟨h, unsent⟩ routed waiting taken queue) :
    ∃ queue', Underway c ⟨h.routeAll 0, unsent⟩ (routed ++ waiting) [] taken queue' := by
  induction waiting generalizing h routed queue with
  | nil =>
    refine ⟨queue, ?_⟩
    rw [routeAll_eq hu.routers, List.append_nil]
    exact hu.of_house_eq rfl rfl hu.routers.symm rfl fun _ ha => ha
  | cons s rest ih =>
    have hnext : h.routeAll 0 = (h.routeNext 0).routeAll 0 := by
      rw [routeAll_eq hu.routers, routeAll_eq (hu.routeNext rfl).routers,
        routeNext_eq hu.routers rfl]
      rfl
    obtain ⟨queue', hu'⟩ := ih (hu.routeNext rfl)
    rw [hnext]
    rw [List.append_assoc] at hu'
    exact ⟨queue', hu'⟩

/-- There is no router but the first one. -/
theorem routeAll_of_ne (hu : Underway c ⟨h, unsent⟩ routed waiting taken queue) {n : Nat}
    (hn : n ≠ 0) : h.routeAll n = h := by
  have hnone : h.routers[n]? = none := by
    have hrouters : h.routers = [_] := hu.routers
    rw [hrouters, List.getElem?_eq_none_iff]
    exact Nat.one_le_iff_ne_zero.mpr hn
  rw [House.routeAll, hnone, List.modify_eq_self (List.getElem?_eq_none_iff.mp hnone)]
  rfl

/-- The routers that are awake work off their inboxes, the first one among them. -/
theorem foldl_routeAll (ns : List Nat) (hu : Underway c ⟨h, unsent⟩ routed waiting taken queue)
    (hawake : 0 ∈ ns ∨ waiting = []) :
    ∃ queue', Underway c ⟨ns.foldl House.routeAll h, unsent⟩ (routed ++ waiting) [] taken
      queue' := by
  induction ns generalizing h routed waiting queue with
  | nil =>
    obtain rfl := hawake.resolve_left (by simp)
    rw [List.append_nil]
    exact ⟨queue, hu⟩
  | cons n rest ih =>
    rw [List.foldl_cons]
    by_cases hn : n = 0
    · obtain ⟨queue', hu'⟩ := hu.routeAll
      have hall := ih hu' (Or.inr rfl)
      rw [List.append_nil] at hall
      rw [hn]
      exact hall
    · rw [hu.routeAll_of_ne hn]
      refine ih hu (hawake.imp_left fun hmem => ?_)
      exact (List.mem_cons.mp hmem).resolve_left fun heq => hn heq.symm

theorem handleAll_eq (hu : Underway c ⟨h, unsent⟩ routed waiting taken queue) :
    h.handleAll =
      { h with
        hub := queue.foldl Hub.handle h.hub
        registry := h.registry.skip 0 queue.length } := by
  have hstream : h.adapterStream = some 0 := hu.stream
  rw [House.handleAll, hstream]
  dsimp only
  rw [Registry.drain, Registry.pending_of_follows hu.follows]

theorem handleAll (hu : Underway c ⟨h, unsent⟩ routed waiting taken queue) :
    Underway c ⟨h.handleAll, unsent⟩ routed waiting (taken ++ queue) [] := by
  induction queue generalizing h taken with
  | nil =>
    rw [hu.handleAll_eq, List.append_nil]
    exact ⟨hu.sound, hu.clients, hu.foreign, hu.alarms, hu.stream, hu.seeds, hu.routers,
      hu.devices, Registry.follows_skip hu.follows 0, hu.events, hu.shows⟩
  | cons e rest ih =>
    have hnext : h.handleAll = h.handleNext.handleAll := by
      rw [hu.handleAll_eq, (hu.handleNext rfl).handleAll_eq, hu.handleNext_eq]
      dsimp only
      rw [Registry.skip_skip, Nat.add_comm 1, List.length_cons]
      rfl
    have hall := ih (hu.handleNext rfl)
    rw [List.append_assoc] at hall
    rw [hnext]
    exact hall

/-- The house that the daemon reports on is one in which nothing is left to do. -/
theorem house (hc : c.Sensible) : Underway c ⟨c.house, []⟩ c.seeds [] (Seed.events c.seeds) [] := by
  have hawake : 0 ∈ c.start.awake := by
    have hwoken : 0 ∈ c.startup.house.awake := List.mem_cons_self
    exact List.foldlRecOn (motive := fun h : House => 0 ∈ h.awake) c.seeds _ hwoken
      fun _ hmem s _ => House.mem_awake_publish hmem (c.announcement s)
  have hrung : 0 ∈ c.start.ring.awake :=
    House.ring_induct (P := fun h => 0 ∈ h.awake) hawake fun _ _ _ hn => House.mem_awake_publish hn _
  have hring : Underway c ⟨c.start.ring, []⟩ [] c.seeds [] [] := (announced hc).ring hc
  have hasleep : Underway c ⟨{ c.start.ring with awake := [] }, []⟩ [] c.seeds [] [] :=
    hring.of_house_eq rfl rfl rfl rfl fun _ ha => ha
  obtain ⟨queue, hrouted⟩ := hasleep.foldl_routeAll c.start.ring.awake (Or.inl hrung)
  have hhandled := hrouted.handleAll
  have hevents : Seed.events c.seeds = queue := hrouted.events
  rw [hevents]
  exact hhandled

end Underway

/-! ## The report -/

/-- The lines of the report for a device that is there and has its accessory. -/
def Device.reported (d : Device) : List String :=
  ("  - " ++ d.name ++ " (" ++ d.topic ++ ") type=" ++ d.deviceType ++ " reachable=true")
    :: d.features.toList.map (fun f =>
      "    " ++ f.1 ++ ": get=" ++ f.2.getTopic ++ " set=" ++ f.2.setTopic)
    ++ ["    accessory 0x" ++ String.ofList (Hex.padded 16 (Identity.topicId d.topic)) ++ ", "
      ++ toString d.blueprint.accessory.services.length ++ " services"]

namespace Seed

/-- The devices that the last seeds of their topics announce, in the order of the report. -/
structure Listed (seeds : List Seed) (ds : List Device) : Prop where
  ordered : ds.Pairwise fun d d' => Utf8.encode d.topic < Utf8.encode d'.topic
  complete : ∀ topic, topic ∈ ds.map (·.topic) ↔
    ∃ s, last? seeds topic = some s ∧ s.metadata ≠ ""
  told : ∀ d ∈ ds, ∃ s m, last? seeds d.topic = some s ∧ Metadata.decode? s.payload = some m ∧
    d = { ({ topic := d.topic } : Device).withMetadata m with reachable := true }
  features : ∀ d ∈ ds, d.features.keys.Pairwise fun n n' => Utf8.encode n < Utf8.encode n'

theorem listed_devices {seeds : List Seed} (h : Legible seeds) :
    Listed seeds (devices seeds).values := by
  have hkeyed := keyed_devices h
  have hentry : ∀ e ∈ (devices seeds).entries, e.2.topic = e.1 := fun e he =>
    hkeyed e.1 e.2 (SortedMap.find?_eq_some_iff.mpr he)
  have hdevice : ∀ d ∈ (devices seeds).values, (devices seeds).find? d.topic = some d := by
    intro d hd
    obtain ⟨topic, htopic⟩ := SortedMap.mem_values_iff.mp hd
    rwa [hkeyed topic d htopic]
  constructor
  · rw [SortedMap.values, List.pairwise_map]
    refine (devices seeds).sorted.imp_of_mem fun {e e'} he he' hlt => ?_
    rw [hentry e he, hentry e' he']
    exact Utf8.encode_lt_encode hlt
  · intro topic
    constructor
    · intro hmem
      obtain ⟨d, hd, rfl⟩ := List.mem_map.mp hmem
      obtain ⟨s, -, hlast, hne, -⟩ := last?_of_find?_devices h (hdevice d hd)
      exact ⟨s, hlast, hne⟩
    · rintro ⟨s, hlast, hne⟩
      have hexpected : (expected seeds).find? topic = some true := by
        rw [find?_expected, hlast]
        simp [hne]
      obtain ⟨d, hd⟩ := Option.isSome_iff_exists.mp ((isSome_find?_devices h topic).mpr hexpected)
      exact List.mem_map.mpr ⟨d, SortedMap.mem_values_iff.mpr ⟨topic, hd⟩, hkeyed topic d hd⟩
  · intro d hd
    obtain ⟨s, m, hlast, -, hm, heq⟩ := last?_of_find?_devices h (hdevice d hd)
    exact ⟨s, m, hlast, hm, heq⟩
  · intro d _
    rw [SortedMap.keys, List.pairwise_map]
    exact d.features.sorted.imp fun hlt => Utf8.encode_lt_encode hlt

end Seed

/-- An accessory is reported as the blueprint of its device has it. -/
theorem House.reportDevice_of_shows {h : House} {told : SortedMap String Device}
    (hs : h.hub.Shows told) {d : Device} (hd : told.find? d.topic = some d)
    (hreachable : d.reachable = true) : h.reportDevice d = d.reported := by
  have halike := hs.alike d.topic
  rw [hd] at halike
  obtain ⟨i, hi⟩ := Option.isSome_iff_exists.mp halike
  obtain ⟨⟨a, ha, hstructure, -⟩, -⟩ := hs.presents d.topic i d hi hd
  have hshape := ((Accessory.sameStructure_iff a d.blueprint.accessory).mp hstructure).2
  have hid : a.id = Identity.topicId d.topic := by
    rw [← Device.id_blueprint]
    exact congrArg Accessory.Shape.id hshape
  have hservices : a.services.length = d.blueprint.accessory.services.length := by
    have hlength := congrArg (fun s => s.services.length) hshape
    simpa [Accessory.shape] using hlength
  have haccessory : h.hub.accessory? d.topic = some a := by
    rw [Hub.accessory?, hi]
    exact ha
  have hflag : ∀ line : String, line ++ " reachable=" ++ "true" = line ++ " reachable=true" :=
    fun line => String.append_assoc
  rw [reportDevice, haccessory, hreachable, if_pos rfl, hflag, Device.reported, ← hid,
    ← hservices]
  rfl

namespace Underway

variable {c : Config} {u : Startup}

theorem shows_done (hc : c.Sensible) (hu : Underway c u c.seeds [] (Seed.events c.seeds) []) :
    u.house.hub.Shows (Seed.devices c.seeds) := by
  have hshows := hu.shows
  rwa [Seed.foldl_record_events (Config.legible hc)] at hshows

theorem reportLines_eq (hc : c.Sensible)
    (hu : Underway c u c.seeds [] (Seed.events c.seeds) []) :
    u.house.reportLines = ("Registered " ++ toString (Seed.present c.seeds) ++ " devices:")
      :: (Seed.devices c.seeds).values.flatMap Device.reported := by
  have hlegible := Config.legible hc
  have hdevices : u.house.registry.devices = Seed.devices c.seeds := hu.devices
  have hsize : u.house.registry.size = Seed.present c.seeds := by
    rw [Registry.size, hdevices, Seed.size_devices hlegible]
  have hlines : ∀ d ∈ (Seed.devices c.seeds).values,
      u.house.reportDevice d = d.reported := by
    intro d hd
    obtain ⟨topic, htopic⟩ := SortedMap.mem_values_iff.mp hd
    obtain ⟨s, m, -, -, -, heq⟩ := Seed.last?_of_find?_devices hlegible htopic
    have hown : d.topic = topic := Seed.keyed_devices hlegible topic d htopic
    rw [← hown] at htopic
    exact House.reportDevice_of_shows (shows_done hc hu) htopic (by rw [heq])
  rw [House.reportLines, hsize, hdevices, List.flatMap_congr hlines]

end Underway

namespace Startup

/-- A startup that went through all its work. -/
theorem done {c : Config} (hc : c.Sensible) (hfree : c.Unclaimed) {stages : List Stage}
    (hq : (c.startup.run c stages).Quiescent) :
    Underway c (c.startup.run c stages) c.seeds [] (Seed.events c.seeds) [] := by
  have hready : Underway.Ready c c.startup := Or.inr ⟨hfree, Underway.listens_startup c⟩
  obtain ⟨routed, waiting, taken, queue, hu, -⟩ := (Underway.startup c).run hc hready stages
  exact hu.done_of_quiescent hq

/-- At the end registry and adapter hold as many devices as the daemon waits for.  The
report lists what the last seeds say, with an accessory for each, and it would be the same
after any other run and with the seeds of different topics in any other order. -/
theorem report_of_quiescent {c : Config} (hc : c.Sensible) (hfree : c.Unclaimed)
    {stages : List Stage} (hq : (c.startup.run c stages).Quiescent) :
    let h := (c.startup.run c stages).house
    h.registry.size = Seed.present c.seeds ∧
    h.hub.installed.size = Seed.present c.seeds ∧
    (∃ ds, Seed.Listed c.seeds ds ∧
      h.reportLines = ("Registered " ++ toString (Seed.present c.seeds) ++ " devices:")
        :: ds.flatMap Device.reported) ∧
    c.house.reportLines = h.reportLines ∧
    ∀ seeds, (∀ topic, seeds.filter (·.topic = topic) = c.seeds.filter (·.topic = topic)) →
      let c' : Config := { c with seeds }
      ∀ stages', (c'.startup.run c' stages').Quiescent →
        (c'.startup.run c' stages').house.reportLines = h.reportLines := by
  intro h
  have hlegible := Config.legible hc
  have hu := done hc hfree hq
  have hsize : (Seed.devices c.seeds).size = Seed.present c.seeds := Seed.size_devices hlegible
  have hlines := Underway.reportLines_eq hc hu
  refine ⟨?_, ?_, ⟨_, Seed.listed_devices hlegible, hlines⟩, ?_, ?_⟩
  · rw [← hsize]
    exact congrArg SortedMap.size hu.devices
  · rw [← hsize]
    exact Hub.size_of_shows (Underway.shows_done hc hu)
  · rw [Underway.reportLines_eq hc (Underway.house hc)]
    exact hlines.symm
  · intro seeds hsame c' stages' hq'
    have hsub : ∀ s ∈ seeds, s ∈ c.seeds := fun s hs =>
      (perm_of_filter_eq (·.topic) hsame).mem_iff.mp hs
    have hc' : c'.Sensible := Config.sensible_of_subset hc hsub
    have hfree' : c'.Unclaimed := Config.unclaimed_of_subset hfree hsub
    have hpresent := Seed.present_eq_of_filter hlegible (Config.legible hc') hsame
    have hdevices := Seed.devices_eq_of_filter hlegible (Config.legible hc') hsame
    rw [Underway.reportLines_eq hc' (done hc' hfree' hq'), hpresent, hdevices]
    exact hlines.symm

/-- A lamp that is announced again with a name, and another one that is deleted. -/
def twoLamps : Config where
  seeds :=
    [⟨"hall/lamp", "\x7b\x7d"⟩, ⟨"attic/lamp", Config.sampleMetadata⟩,
      ⟨"hall/lamp", Config.sampleMetadata⟩, ⟨"attic/lamp", ""⟩]

theorem report_of_twoLamps :
    twoLamps.Sensible ∧ twoLamps.Unclaimed ∧
    ∃ stages, let u := twoLamps.startup.run twoLamps stages
      u.Quiescent ∧ u.house.registry.size = 1 ∧ u.house.hub.installed.size = 1 ∧
      u.house.reportLines = twoLamps.house.reportLines := by
  have hc : twoLamps.Sensible := by decide +kernel
  have hfree : twoLamps.Unclaimed := by decide +kernel
  have hpresent : Seed.present twoLamps.seeds = 1 := by decide +kernel
  have hready : Underway.Ready twoLamps twoLamps.startup :=
    Or.inr ⟨hfree, Underway.listens_startup twoLamps⟩
  obtain ⟨stages, hq⟩ := (Underway.startup twoLamps).quiescence hc hready
  obtain ⟨hregistry, hinstalled, -, hreport, -⟩ := report_of_quiescent hc hfree hq
  exact ⟨hc, hfree, stages, hq, hregistry.trans hpresent, hinstalled.trans hpresent, hreport.symm⟩

end Startup
end HomeSync
