import HomeSync.Proofs.Daemon.Listening

/-
When the daemon believes that it is done.

The daemon compares two numbers, those of the devices in the registry and in the
adapter, with the number that the seeds leave.  Seeds that are still to be applied can
leave the number as it is, so the comparison can hold too soon.  It tells the end exactly
if from the first time that the number is reached the seeds only delete what is not there.
This is so if no topic is announced or deleted again once a device is there.
-/
namespace HomeSync
namespace Seed

/-! ## Seeds whose number tells the end -/

/-- Once the seeds before it leave the final number of devices, a seed is idle. -/
def Telling (seeds : List Seed) : Prop :=
  ∀ before s after, seeds = before ++ s :: after → present before = present seeds → Idle before s

/-- No seed is for a topic whose device is there. -/
def Fresh (seeds : List Seed) : Prop :=
  ∀ before s after, seeds = before ++ s :: after → (expected before).find? s.topic ≠ some true

theorem forall_split_iff {seeds : List Seed} {P : List Seed → Seed → Prop} :
    (∀ before s after, seeds = before ++ s :: after → P before s) ↔
      ∀ n, (h : n < seeds.length) → P (seeds.take n) seeds[n] := by
  constructor
  · intro hall n h
    refine hall (seeds.take n) seeds[n] (seeds.drop (n + 1)) ?_
    rw [← List.drop_eq_getElem_cons h, List.take_append_drop]
  · rintro hall before s after rfl
    have hP := hall before.length (by simp)
    simpa using hP

instance (before : List Seed) (s : Seed) : Decidable (Idle before s) :=
  inferInstanceAs (Decidable (_ ∧ _))

instance (seeds : List Seed) : Decidable (Telling seeds) :=
  decidable_of_iff' _ (forall_split_iff
    (P := fun before s => present before = present seeds → Idle before s))

instance (seeds : List Seed) : Decidable (Fresh seeds) :=
  decidable_of_iff' _ (forall_split_iff (P := fun before s =>
    (expected before).find? s.topic ≠ some true))

theorem size_foldl_record_events {seeds : List Seed} (h : Legible seeds) :
    ((events seeds).foldl Event.record SortedMap.empty).size = present seeds := by
  rw [foldl_record_events h, size_devices h]

theorem legible_of_prefix {seeds l : List Seed} (h : Legible seeds) (hl : l <+: seeds) :
    Legible l :=
  legible_of_subset h fun _ hs => hl.subset hs

/-- From the first time that the number is reached there are no more events. -/
theorem events_of_telling {seeds : List Seed} (h : Legible seeds) (ht : Telling seeds)
    {l m : List Seed} (hl : l <+: m) (hm : m <+: seeds) (hsize : present l = present seeds) :
    events m = events l := by
  obtain ⟨more, rfl⟩ := hl
  induction more using List.reverseRecOn with
  | nil => rw [List.append_nil]
  | append_singleton more s ih =>
    rw [← List.append_assoc] at hm ⊢
    have hbefore : l ++ more <+: seeds := (List.prefix_append _ _).trans hm
    have hsame : events (l ++ more) = events l := ih hbefore
    have hlegible : Legible (l ++ more) := legible_of_prefix h hbefore
    have hl : Legible l := legible_of_prefix h ((List.prefix_append _ _).trans hbefore)
    have hnumber : present (l ++ more) = present seeds := by
      rw [← hsize, ← size_foldl_record_events hlegible, ← size_foldl_record_events hl, hsame]
    obtain ⟨after, hafter⟩ := hm
    have hidle : Idle (l ++ more) s :=
      ht (l ++ more) s after (by rw [← hafter, List.append_assoc]; rfl) hnumber
    have hread := h.readable s (by rw [← hafter]; simp)
    obtain ⟨-, hnone⟩ := (events_call hlegible hread).resolve_right fun hbusy => hbusy.1 hidle
    rw [events_concat, hnone, List.append_nil, hsame]

/-- A list of events that gives the final number of devices lacks none. -/
theorem eq_nil_of_telling {seeds : List Seed} (h : Legible seeds) (ht : Telling seeds)
    {taken queue : List Event} (hevents : events seeds = taken ++ queue)
    (hsize : (taken.foldl Event.record SortedMap.empty).size = present seeds) : queue = [] := by
  cases queue with
  | nil => rfl
  | cons e rest =>
    obtain ⟨before, s, after, hsplit, htaken, hbusy⟩ := split_of_events h hevents
    have hbefore : Legible before := legible_of_prefix h ⟨s :: after, hsplit.symm⟩
    rw [← htaken, size_foldl_record_events hbefore] at hsize
    exact absurd (ht before s after hsplit hsize) hbusy

/-! ## Topics that are not announced again -/

/-- A seed for a topic without a device adds one if it announces it. -/
theorem present_concat {seeds : List Seed} {s : Seed}
    (hfresh : (expected seeds).find? s.topic ≠ some true) :
    present (seeds ++ [s]) = present seeds + (if s.metadata = "" then 0 else 1) := by
  have hexpected : expected (seeds ++ [s]) =
      (expected seeds).insert s.topic (!s.metadata.isEmpty) := List.foldl_append
  have hrest : ((expected seeds).erase s.topic).values.countP id = present seeds := by
    cases hfind : (expected seeds).find? s.topic with
    | none => rw [SortedMap.erase_of_find?_none hfind, present]
    | some there =>
      have hthere : there = false := by simpa [hfind] using hfresh
      rw [present, (SortedMap.values_erase_perm hfind).countP_eq, hthere]
      rfl
  rw [present, hexpected, (SortedMap.values_insert_perm ..).countP_eq, List.countP_cons, hrest]
  simp

theorem present_le_of_fresh {l more : List Seed} (hfresh : Fresh (l ++ more)) :
    present l ≤ present (l ++ more) := by
  induction more using List.reverseRecOn with
  | nil => rw [List.append_nil]
  | append_singleton more s ih =>
    rw [← List.append_assoc] at hfresh ⊢
    have hless : Fresh (l ++ more) := fun before s₀ after hsplit =>
      hfresh before s₀ (after ++ [s]) (by rw [hsplit, List.append_assoc]; rfl)
    rw [present_concat (hfresh (l ++ more) s [] rfl)]
    exact Nat.le_add_right_of_le (ih hless)

theorem telling_of_fresh {seeds : List Seed} (hfresh : Fresh seeds) : Telling seeds := by
  intro before s after hsplit hnumber
  have hnew := hfresh before s after hsplit
  refine ⟨?_, hnew⟩
  by_contra hne
  have hcut : seeds = before ++ [s] ++ after := by
    rw [hsplit, List.append_assoc]
    rfl
  -- the device of this seed stays, so the number was not reached before it
  rw [hcut] at hfresh
  have hle := present_le_of_fresh hfresh
  rw [← hcut, ← hnumber, present_concat hnew, if_neg hne] at hle
  omega

end Seed

namespace Startup

/-- All seeds are applied, and the adapter has taken all that came of them. -/
def Applied (c : Config) (u : Startup) : Prop :=
  u.house.registry.devices = Seed.devices c.seeds ∧
    ∀ id, u.house.adapterStream = some id → u.house.registry.pending id = []

end Startup

namespace Config

/-- Whenever the daemon finds the final number of devices first in the registry and then
in the adapter, what it prints some time later is what all seeds leave. -/
def Reliable (c : Config) : Prop :=
  ∀ before between after,
    (c.announced.run c before).house.registry.size = Seed.present c.seeds →
    (c.announced.run c (before ++ between)).house.hub.installed.size = Seed.present c.seeds →
    Startup.Applied c (c.announced.run c (before ++ between ++ after))

end Config

namespace Underway

variable {c : Config} {u : Startup} {routed waiting : List Seed} {taken queue : List Event}

theorem size_registry (hu : Underway c u routed waiting taken queue) (hc : c.Sensible) :
    u.house.registry.size = Seed.present routed := by
  rw [Registry.size, hu.devices, Seed.size_devices (hu.legible hc)]

theorem routed_prefix (hu : Underway c u routed waiting taken queue) : routed <+: c.seeds := by
  rw [hu.seeds, List.append_assoc]
  exact List.prefix_append _ _

theorem reliable_of_telling (hc : c.Sensible) (ht : Seed.Telling c.seeds) : c.Reliable := by
  intro before between after hregistry hinstalled
  have hlegible := Config.legible hc
  rw [run_append] at hinstalled
  rw [run_append, run_append]
  obtain ⟨routed₁, waiting₁, taken₁, queue₁, hu₁, hready₁, -, -⟩ :=
    (announced hc).run hc (Or.inl rfl) before
  obtain ⟨routed₂, waiting₂, taken₂, queue₂, hu₂, hready₂, hrouted₂, -⟩ :=
    hu₁.run hc hready₁ between
  obtain ⟨routed₃, waiting₃, taken₃, queue₃, hu₃, -, hrouted₃, htaken₃⟩ :=
    hu₂.run hc hready₂ after
  -- what is routed when the registry is counted gives all the events there are
  rw [hu₁.size_registry hc] at hregistry
  have hlater : ∀ {m}, routed₁ <+: m → m <+: c.seeds → Seed.events m = Seed.events routed₁ :=
    fun hl hm => Seed.events_of_telling hlegible ht hl hm hregistry
  have hall := hlater hu₁.routed_prefix List.prefix_rfl
  have hevents₂ : Seed.events c.seeds = taken₂ ++ queue₂ := by
    rw [hall, ← hlater hrouted₂ hu₂.routed_prefix, hu₂.events]
  have hevents₃ : Seed.events routed₃ = Seed.events c.seeds := by
    rw [hall, hlater (hrouted₂.trans hrouted₃) hu₃.routed_prefix]
  -- and all of them are taken when the adapter is counted
  rw [Hub.size_of_shows hu₂.shows] at hinstalled
  obtain rfl := Seed.eq_nil_of_telling hlegible ht hevents₂ hinstalled
  have hqueue : queue₃ = [] := by
    obtain ⟨rest, rfl⟩ := htaken₃
    have hnone := hu₃.events
    rw [hevents₃, hevents₂, List.append_nil, List.append_assoc] at hnone
    exact (List.append_eq_nil_iff.mp (List.self_eq_append_right.mp hnone)).2
  refine ⟨?_, fun id hid => ?_⟩
  · rw [hu₃.devices, ← Seed.foldl_record_events (hu₃.legible hc), hevents₃,
      Seed.foldl_record_events hlegible]
  · rw [hu₃.stream] at hid
    obtain rfl := Option.some.inj hid
    rw [Registry.pending_of_follows hu₃.follows, hqueue]

/-- With some seeds routed and all their events taken, both numbers are those of these
seeds, and the next seed may still come. -/
theorem telling_of_reliable (hc : c.Sensible) (hr : c.Reliable) : Seed.Telling c.seeds := by
  intro before s after hsplit hnumber
  have hstart := announced hc
  rw [hsplit] at hstart
  obtain ⟨stages, h, hrun, hu⟩ := hstart.route_and_handle
  rw [List.nil_append] at hu
  have hregistry : h.registry.size = Seed.present c.seeds := (hu.size_registry hc).trans hnumber
  have hinstalled : h.hub.installed.size = Seed.present c.seeds := by
    rw [Hub.size_of_shows hu.shows, Seed.size_foldl_record_events (hu.legible hc), hnumber]
  have happlied := hr stages [] [.route] (by
    rw [Config.announced, hrun]
    exact hregistry) (by
    rw [List.append_nil, Config.announced, hrun]
    exact hinstalled)
  rw [List.append_nil, run_append, Config.announced, hrun] at happlied
  have hnext := hu.routeNext rfl
  have hnone : s.call.events (Seed.devices before) = [] := by
    rw [← happlied.2 0 hnext.stream]
    exact (Registry.pending_of_follows hnext.follows).symm
  have hread := (Config.legible hc).readable s (by rw [hsplit]; simp)
  rcases Seed.events_call (hu.legible hc) hread with ⟨hidle, -⟩ | ⟨-, e, hone⟩
  · exact hidle
  · rw [hone] at hnone
    exact absurd hnone (List.cons_ne_nil e [])

end Underway

namespace Config

/-- The comparison of the numbers can be relied on exactly if the seeds' number tells the
end, in particular if no topic is seeded again while its device is there. -/
theorem settle_reliable_iff {c : Config} (hc : c.Sensible) :
    (c.Reliable ↔ Seed.Telling c.seeds) ∧ (Seed.Fresh c.seeds → c.Reliable) :=
  ⟨⟨Underway.telling_of_reliable hc, Underway.reliable_of_telling hc⟩,
    fun hfresh => Underway.reliable_of_telling hc (Seed.telling_of_fresh hfresh)⟩

/-- Two lamps, of which one is deleted before it is announced. -/
def freshLamps : Config where
  seeds := [⟨"attic/lamp", ""⟩, ⟨"hall/lamp", sampleMetadata⟩, ⟨"attic/lamp", sampleMetadata⟩]

theorem settle_reliable_freshLamps :
    freshLamps.Sensible ∧ Seed.Fresh freshLamps.seeds ∧ freshLamps.Reliable := by
  have hc : freshLamps.Sensible := sensible_of_usual rfl (by decide +kernel) (by decide +kernel)
  have hfresh : Seed.Fresh freshLamps.seeds := by decide +kernel
  exact ⟨hc, hfresh, (settle_reliable_iff hc).2 hfresh⟩

/-- A lamp that is announced a second time, now with a name. -/
def renamedLamp : Config where
  seeds := [⟨"hall/lamp", "\x7b\x7d"⟩, ⟨"hall/lamp", sampleMetadata⟩]

/-- With the first announcement routed and taken both numbers are final, but the name is
still to come. -/
theorem settled_before_name :
    renamedLamp.Sensible ∧
    let u := renamedLamp.announced.run renamedLamp [.route, .handle]
    u.house.registry.size = Seed.present renamedLamp.seeds ∧
      u.house.hub.installed.size = Seed.present renamedLamp.seeds ∧
      (u.house.registry.devices.find? "hall/lamp").map (·.name) = some "" ∧
      ((Seed.devices renamedLamp.seeds).find? "hall/lamp").map (·.name) =
        some "Kitchen Light" := by
  have hc : renamedLamp.Sensible := sensible_of_usual rfl (by decide +kernel) (by decide +kernel)
  have hrouted := (Underway.announced hc).routeNext rfl
  obtain ⟨e, he⟩ : ∃ e, (⟨"hall/lamp", "\x7b\x7d"⟩ : Seed).call.events (Seed.devices []) = [e] :=
    ⟨_, rfl⟩
  rw [List.nil_append, he] at hrouted
  have hu := hrouted.handleNext rfl
  have htaken := hu.events
  rw [List.append_nil] at htaken
  refine ⟨hc, (hu.size_registry hc).trans (by decide +kernel), ?_, ?_, by decide +kernel⟩
  · refine (Hub.size_of_shows hu.shows).trans ?_
    rw [← htaken, Seed.size_foldl_record_events (hu.legible hc)]
    decide +kernel
  · let name (devices : SortedMap String Device) := (devices.find? "hall/lamp").map (·.name)
    exact (congrArg name hu.devices).trans (by decide +kernel)

end Config
end HomeSync
