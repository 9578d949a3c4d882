import HomeSync.Proofs.Daemon.Progress
import HomeSync.Proofs.House.Writes

/-
The router listens until the last seed is announced.

A change of devices cuts off whoever listens on the topics of the accessory that goes.
All accessories are built for devices of the seeds, so if no feature of a seed names the
filter of the router, its subscription stays.  Then every run of the startup goes through
the seeds in their order, and it can always be brought to an end.
-/
namespace HomeSync

/-- A topic that is made up for a feature ends in a level that is no wildcard. -/
theorem Feature.getTopic_attach_ne {f : Feature} {c : RouterConfig}
    (h : f.getTopic ≠ c.announceFilter) (topic name : String) :
    (f.attach topic name).getTopic ≠ c.announceFilter := by
  have hlast : ∀ s t : String, t.toList ≠ [] → (s ++ t).toList.getLast? = t.toList.getLast? := by
    intro s t ht
    rw [String.toList_append, List.getLast?_append_of_ne_nil _ ht]
  intro heq
  rw [attach] at heq
  split at heq
  · have hends := congrArg (fun s : String => s.toList.getLast?) heq
    dsimp only at hends
    rw [hlast _ "/get" (by decide), RouterConfig.announceFilter, Topic.child,
      hlast _ "#" (by decide)] at hends
    exact absurd hends (by decide)
  · exact h heq

namespace Config

/-- A device that a seed announces. -/
def Seeded (c : Config) (d : Device) : Prop :=
  ∃ s ∈ c.seeds, Device.announced? s.topic s.payload = some d

theorem getTopic_ne_of_seeded {c : Config} (hfree : c.Unclaimed) {d : Device} (hd : c.Seeded d)
    {b : Binding} (hb : b ∈ d.bindings) : b.feature.getTopic ≠ c.router.announceFilter := by
  obtain ⟨s, hs, hannounced⟩ := hd
  obtain ⟨m, hm, rfl⟩ := Device.announced?_eq_some_iff.mp hannounced
  obtain ⟨⟨name, hfind⟩, -⟩ := Device.mem_bindings hb
  replace hfind : (({ topic := s.topic } : Device).withMetadata m).features.find? name =
      some b.feature := hfind
  rw [Device.withMetadata_eq, SortedMap.find?_map] at hfind
  obtain ⟨f, hf, hattach⟩ := Option.map_eq_some_iff.mp hfind
  rw [← hattach]
  exact Feature.getTopic_attach_ne (hfree s hs m hm name f hf) _ name

end Config

/-- The router hears announcements, and all accessories come from the seeds. -/
structure Listens (c : Config) (h : House) : Prop where
  post : ⟨c.router.announceFilter, .announcements 0⟩ ∈ h.hub.bus.foreign
  built : h.hub.Built c.Seeded

theorem Hub.mem_bindings_of_cutting {h h' : Hub} {e : Event} {topics : List String}
    (hc : h.Cutting e topics h') {topic : String} (ht : topic ∈ topics) :
    ∃ t i, h.installed.find? t = some i ∧ ∃ b ∈ i.bindings, b.feature.getTopic = topic := by
  cases hc with
  | install hnew => exact absurd ht (by simp)
  | keep hfind => exact absurd ht (by simp)
  | renew hfind => exact ⟨_, _, hfind, List.mem_map.mp ht⟩
  | ignore => exact absurd ht (by simp)
  | teardown hfind => exact ⟨_, _, hfind, List.mem_map.mp ht⟩

namespace Underway

variable {c : Config} {u : Startup} {h : House} {unsent routed waiting : List Seed}
  {taken queue : List Event}

/-! ## Listening -/

theorem foreign_publish (hclients : h.hub.bus.clients = []) (p : Publication) :
    (h.publish p).hub.bus.foreign = h.hub.bus.foreign := by
  rw [House.publish, House.bus_perform, Bus.perform_publish hclients]
  rfl

theorem listens_publish (hsound : h.hub.Sound) (hclients : h.hub.bus.clients = [])
    (hl : Listens c h) (p : Publication) : Listens c (h.publish p) := by
  obtain ⟨hsame, -⟩ := House.untouched_step hsound (m := .operate (.publish p)) trivial
  refine ⟨?_, Hub.built_of_faces hl.built hsame.installed hsame.faces⟩
  rw [foreign_publish hclients]
  exact hl.post

theorem listens_ring (hu : Underway c ⟨h, unsent⟩ routed waiting taken queue) (hc : c.Sensible)
    (hl : Listens c h) : Listens c h.ring := by
  let both (h : House) : Prop := Underway c ⟨h, unsent⟩ routed waiting taken queue ∧ Listens c h
  have hring : both h.ring := by
    refine House.ring_induct (P := both) ⟨?_, hl.post, hl.built⟩ ?_
    · exact hu.of_house_eq rfl rfl rfl rfl fun a ha => (List.mem_filter.mp ha).1
    · rintro h' a ha ⟨hu', hl'⟩
      refine ⟨?_, listens_publish hu'.sound hu'.clients hl' _⟩
      rw [hu.alarms a ha]
      exact hu'.publish_discovery hc
  exact hring.2

/-- A change leaves the router alone, since no accessory follows its filter. -/
theorem listens_handleNext (hu : Underway c ⟨h, unsent⟩ routed waiting taken queue)
    (hfree : c.Unclaimed) (hl : Listens c h) : Listens c h.handleNext := by
  rw [handleNext_eq hu]
  cases queue with
  | nil => exact hl
  | cons e rest =>
    have hcutting := Hub.cutting_handle h.hub e
    refine ⟨?_, ?_⟩
    · show _ ∈ (h.hub.handle e).bus.foreign
      rw [Hub.foreign_of_cutting hcutting, List.mem_filter]
      refine ⟨hl.post, ?_⟩
      have hkept : c.router.announceFilter ∉ h.hub.cut e := by
        intro hmem
        obtain ⟨t, i, hi, b, hb, htopic⟩ := Hub.mem_bindings_of_cutting hcutting hmem
        obtain ⟨d, hd, -, hbindings, -⟩ := hl.built t i hi
        rw [hbindings] at hb
        exact Config.getTopic_ne_of_seeded hfree hd hb htopic
      simpa using hkept
    · refine Hub.built_of_takes hu.sound hl.built (fun d hd => ?_) (Hub.takes_handle h.hub e)
      have hmem : Event.updated d ∈ Seed.events routed := by
        rw [hu.events, hd]
        simp
      obtain ⟨s, hs, hannounced⟩ := Seed.updated_of_mem_events hmem
      refine ⟨s, ?_, hannounced⟩
      rw [hu.seeds, List.append_assoc]
      exact List.mem_append_left _ hs

/-- Nothing is left to be announced, or whatever comes will be heard. -/
def Ready (c : Config) (u : Startup) : Prop :=
  u.unsent = [] ∨ (c.Unclaimed ∧ Listens c u.house)

theorem ready_step (hu : Underway c u routed waiting taken queue) (hc : c.Sensible)
    (hready : Ready c u) (stage : Stage) : Ready c (u.step c stage) := by
  obtain ⟨h, unsent⟩ := u
  rcases hready with hnone | ⟨hfree, hl⟩
  · refine Or.inl ?_
    replace hnone : unsent = [] := hnone
    subst hnone
    cases stage <;> rfl
  · cases stage with
    | announce =>
      cases unsent with
      | nil => exact Or.inl rfl
      | cons s rest => exact Or.inr ⟨hfree, listens_publish hu.sound hu.clients hl _⟩
    | wait duration =>
      have hlater : Underway c ⟨{ h with clock := h.clock + duration }, unsent⟩ routed waiting
          taken queue := hu.of_house_eq rfl rfl rfl rfl fun _ ha => ha
      exact Or.inr ⟨hfree, hlater.listens_ring hc ⟨hl.post, hl.built⟩⟩
    | route =>
      have hhub : (h.routeNext 0).hub = h.hub := by
        rw [House.routeNext]
        split <;> rfl
      refine Or.inr ⟨hfree, ?_, ?_⟩
      · show _ ∈ (h.routeNext 0).hub.bus.foreign
        rw [hhub]
        exact hl.post
      · show (h.routeNext 0).hub.Built c.Seeded
        rw [hhub]
        exact hl.built
    | handle => exact Or.inr ⟨hfree, listens_handleNext hu hfree hl⟩

/-! ## Runs -/

/-- Through any run the seeds are routed and the events are taken in their order. -/
theorem run (hu : Underway c u routed waiting taken queue) (hc : c.Sensible)
    (hready : Ready c u) (stages : List Stage) :
    ∃ routed' waiting' taken' queue', Underway c (u.run c stages) routed' waiting' taken' queue' ∧
      Ready c (u.run c stages) ∧ routed <+: routed' ∧ taken <+: taken' := by
  induction stages generalizing u routed waiting taken queue with
  | nil => exact ⟨routed, waiting, taken, queue, hu, hready, List.prefix_rfl, List.prefix_rfl⟩
  | cons stage rest ih =>
    have hlistens : u.unsent = [] ∨
        ⟨c.router.announceFilter, .announcements 0⟩ ∈ u.house.hub.bus.foreign :=
      hready.imp_right fun h => h.2.post
    obtain ⟨routed₁, waiting₁, taken₁, queue₁, hu₁, hrouted, htaken⟩ := hu.step hc hlistens stage
    obtain ⟨routed₂, waiting₂, taken₂, queue₂, hu₂, hready₂, hrouted', htaken'⟩ :=
      ih hu₁ (hu.ready_step hc hready stage)
    exact ⟨routed₂, waiting₂, taken₂, queue₂, hu₂, hready₂, hrouted.trans hrouted',
      htaken.trans htaken'⟩

theorem run_append (u : Startup) (before after : List Stage) :
    u.run c (before ++ after) = (u.run c before).run c after := List.foldl_append

/-- The router gets on with any number of the seeds that wait. -/
theorem route_many {more rest : List Seed}
    (hu : Underway c ⟨h, unsent⟩ routed (more ++ rest) taken queue) :
    ∃ stages h' queue', Startup.run c ⟨h, unsent⟩ stages = ⟨h', unsent⟩ ∧
      Underway c ⟨h', unsent⟩ (routed ++ more) rest taken queue' := by
  induction more generalizing h routed queue with
  | nil =>
    rw [List.append_nil]
    exact ⟨[], h, queue, rfl, hu⟩
  | cons s more ih =>
    obtain ⟨stages, h', queue', hrun, hu'⟩ := ih (hu.routeNext rfl)
    rw [List.append_assoc] at hu'
    exact ⟨.route :: stages, h', queue', hrun, hu'⟩

/-- The adapter gets through the events that wait for it. -/
theorem handle_all (hu : Underway c ⟨h, unsent⟩ routed waiting taken queue) :
    ∃ stages h', Startup.run c ⟨h, unsent⟩ stages = ⟨h', unsent⟩ ∧
      Underway c ⟨h', unsent⟩ routed waiting (taken ++ queue) [] := by
  induction queue generalizing h taken with
  | nil =>
    rw [List.append_nil]
    exact ⟨[], h, rfl, hu⟩
  | cons e rest ih =>
    obtain ⟨stages, h', hrun, hu'⟩ := ih (hu.handleNext rfl)
    rw [List.append_assoc] at hu'
    exact ⟨.handle :: stages, h', hrun, hu'⟩

/-- Routing and taking alone lead to the state where some seeds are routed and all their
events are taken. -/
theorem route_and_handle {more rest : List Seed}
    (hu : Underway c ⟨h, unsent⟩ routed (more ++ rest) taken queue) :
    ∃ stages h', Startup.run c ⟨h, unsent⟩ stages = ⟨h', unsent⟩ ∧
      Underway c ⟨h', unsent⟩ (routed ++ more) rest (Seed.events (routed ++ more)) [] := by
  obtain ⟨stages, h₁, queue₁, hrun, hu₁⟩ := hu.route_many
  obtain ⟨stages', h₂, hrun', hu₂⟩ := hu₁.handle_all
  refine ⟨stages ++ stages', h₂, ?_, ?_⟩
  · rw [run_append, hrun, hrun']
  · rw [hu₁.events]
    exact hu₂

theorem quiescent_of_done (hu : Underway c ⟨h, []⟩ routed [] taken []) :
    (⟨h, []⟩ : Startup).Quiescent := by
  refine ⟨rfl, fun r hr => ?_, fun id hid => ?_⟩
  · rw [hu.routers] at hr
    rw [List.mem_singleton.mp hr]
    rfl
  · rw [hu.stream] at hid
    obtain rfl := Option.some.inj hid
    exact Registry.pending_of_follows hu.follows

/-- Once nothing is left to do, all seeds are routed and all their events are taken. -/
theorem done_of_quiescent (hu : Underway c u routed waiting taken queue) (hq : u.Quiescent) :
    Underway c u c.seeds [] (Seed.events c.seeds) [] := by
  obtain ⟨hunsent, hinbox, hpending⟩ := hq
  have hwaiting : waiting = [] := by
    have hempty := hinbox ⟨c.router, waiting.map Seed.inbound⟩ (by rw [hu.routers]; simp)
    exact List.map_eq_nil_iff.mp hempty
  have hqueue : queue = [] :=
    (Registry.pending_of_follows hu.follows).symm.trans (hpending 0 hu.stream)
  have hseeds : c.seeds = routed := by
    rw [hu.seeds, hwaiting, hunsent, List.append_nil, List.append_nil]
  have hevents := hu.events
  rw [hqueue, List.append_nil] at hevents
  rw [hseeds, hevents]
  subst hwaiting hqueue
  exact hu

/-! ## The start -/

theorem startup (c : Config) : Underway c c.startup [] [] [] [] := by
  have hsound : (House.create false c.bridge).addAdapter.hub.Sound :=
    House.sound_create false c.bridge
  refine ⟨(House.untouched_step hsound (m := .start c.router) trivial).2, rfl, ?_, ?_, rfl, rfl,
    rfl, rfl, ?_, rfl, ?_⟩
  · exact List.Sublist.refl _
  · intro a ha
    obtain rfl := List.mem_singleton.mp ha
    rfl
  · rfl
  · exact ⟨fun _ => rfl, fun topic i d hi => absurd hi (by
      simp [Config.startup, House.startRouter, House.addAdapter, House.create])⟩

theorem listens_startup (c : Config) : Listens c c.startup.house := by
  refine ⟨List.mem_cons_self, fun topic i hi => absurd hi ?_⟩
  simp [Config.startup, House.startRouter, House.addAdapter, House.create]

/-- With all seeds announced, all of them wait for the router. -/
theorem announced (hc : c.Sensible) : Underway c c.announced [] c.seeds [] [] := by
  have hall : ∀ (unsent waiting : List Seed) (h : House),
      Underway c ⟨h, unsent⟩ [] waiting [] [] →
      ⟨c.router.announceFilter, .announcements 0⟩ ∈ h.hub.bus.foreign →
      Underway c ⟨unsent.foldl (fun h s => h.publish (c.announcement s)) h, []⟩ []
        (waiting ++ unsent) [] [] := by
    intro unsent
    induction unsent with
    | nil =>
      intro waiting h hu _
      rw [List.append_nil]
      exact hu
    | cons s rest ih =>
      intro waiting h hu hpost
      have hu' := ih (waiting ++ [s]) _ (hu.publish_seed hc hpost rfl) (by
        rw [foreign_publish hu.clients]
        exact hpost)
      rw [List.append_assoc] at hu'
      exact hu'
  exact hall c.seeds [] c.startup.house (startup c) (listens_startup c).post

/-- The startup can always be brought to an end. -/
theorem quiescence (hu : Underway c u routed waiting taken queue) (hc : c.Sensible)
    (hready : Ready c u) : ∃ stages, (u.run c stages).Quiescent := by
  have hsent : ∃ stages, (u.run c stages).unsent = [] := by
    obtain ⟨h, unsent⟩ := u
    clear hu hready
    induction unsent generalizing h with
    | nil => exact ⟨[], rfl⟩
    | cons s rest ih =>
      obtain ⟨stages, hstages⟩ := ih (h.publish (c.announcement s))
      exact ⟨.announce :: stages, hstages⟩
  obtain ⟨stages, hunsent⟩ := hsent
  obtain ⟨routed₁, waiting₁, taken₁, queue₁, hu₁, -, -, -⟩ := hu.run hc hready stages
  generalize hrun : u.run c stages = u₁ at hunsent hu₁
  obtain ⟨h₁, unsent₁⟩ := u₁
  obtain rfl : unsent₁ = [] := hunsent
  rw [← List.append_nil waiting₁] at hu₁
  obtain ⟨stages', h₂, hrun', hu₂⟩ := hu₁.route_and_handle
  refine ⟨stages ++ stages', ?_⟩
  rw [run_append, hrun, hrun']
  exact hu₂.quiescent_of_done

end Underway

end HomeSync
