import HomeSync.Daemon.Startup
import HomeSync.Proofs.Registry.Replication

/-
The devices that the seeds leave.

The registry knows of each topic what its last seed says.  The count that the daemon
waits for is made from the seeds alone, but it comes to the number of these devices.  A
seed is idle after others if it only deletes what is not there; every other seed gives
one event.
-/
namespace HomeSync
namespace Seed

def payload (s : Seed) : Payload := Utf8.encode s.metadata

def call (s : Seed) : Call := .announce s.topic s.payload

def inbound (s : Seed) : Inbound := .announce s.topic s.payload

theorem isEmpty_payload (s : Seed) : s.payload.isEmpty = s.metadata.isEmpty := by
  rw [Bool.eq_iff_iff, List.isEmpty_iff, String.isEmpty_iff, payload, Utf8.encode,
    List.flatMap_eq_nil_iff, ← String.toList_eq_nil_iff]
  constructor
  · intro h
    by_contra hne
    obtain ⟨c, rest, hc⟩ := List.exists_cons_of_ne_nil hne
    exact String.utf8EncodeChar_ne_nil (h c (by rw [hc]; exact List.mem_cons_self))
  · intro h c hc
    rw [h] at hc
    exact absurd hc (by simp)

/-- Seeds that name their topics and can be read. -/
structure Legible (seeds : List Seed) : Prop where
  named : ∀ s ∈ seeds, s.topic ≠ ""
  readable : ∀ s ∈ seeds, s.metadata ≠ "" → (Metadata.decode? s.payload).isSome

theorem legible_of_subset {seeds seeds' : List Seed} (h : Legible seeds)
    (hsub : ∀ s ∈ seeds', s ∈ seeds) : Legible seeds' :=
  ⟨fun s hs => h.named s (hsub s hs), fun s hs => h.readable s (hsub s hs)⟩

theorem legible_left {seeds more : List Seed} (h : Legible (seeds ++ more)) : Legible seeds :=
  legible_of_subset h fun _ hs => List.mem_append_left _ hs

theorem named_of_legible {seeds : List Seed} (h : Legible seeds) :
    ∀ c ∈ seeds.map call, c.Named := by
  intro c hc
  obtain ⟨s, hs, rfl⟩ := List.mem_map.mp hc
  exact h.named s hs

/-! ## The last seed of a topic -/

/-- The last seed for a topic. -/
def last? (seeds : List Seed) (topic : String) : Option Seed :=
  (seeds.filter (·.topic = topic)).getLast?

theorem last?_concat (seeds : List Seed) (s : Seed) (topic : String) :
    last? (seeds ++ [s]) topic = if s.topic = topic then some s else last? seeds topic := by
  rw [last?, List.filter_append]
  by_cases h : s.topic = topic
  · rw [if_pos h, List.filter_cons_of_pos (by simpa using h), List.filter_nil,
      List.getLast?_concat]
  · rw [if_neg h, List.filter_cons_of_neg (by simpa using h), List.filter_nil, List.append_nil,
      last?]

theorem mem_of_last? {seeds : List Seed} {topic : String} {s : Seed}
    (h : last? seeds topic = some s) : s ∈ seeds ∧ s.topic = topic := by
  have hmem := List.mem_filter.mp (List.mem_of_getLast? h)
  exact ⟨hmem.1, by simpa using hmem.2⟩

theorem find?_expected (seeds : List Seed) (topic : String) :
    (expected seeds).find? topic = (last? seeds topic).map fun s => !s.metadata.isEmpty := by
  induction seeds using List.reverseRecOn with
  | nil => rfl
  | append_singleton seeds s ih =>
    rw [expected, List.foldl_append, last?_concat]
    show ((expected seeds).insert s.topic (!s.metadata.isEmpty)).find? topic = _
    rw [SortedMap.find?_insert, ih]
    split <;> rfl

/-! ## The devices -/

/-- The devices that a registry knows once it was told of some seeds. -/
def devices (seeds : List Seed) : SortedMap String Device :=
  ((seeds.map call).foldl Registry.call {}).devices

/-- The device that a seed announces, if it does not delete. -/
def device? (s : Seed) : Option Device :=
  if s.metadata = "" then none else Device.announced? s.topic s.payload

theorem devices_concat (seeds : List Seed) (s : Seed) (topic : String) :
    (devices (seeds ++ [s])).find? topic =
      s.inbound.effect topic ((devices seeds).find? topic) := by
  rw [devices, List.map_append, List.foldl_append]
  exact Registry.devices_call _ s.call topic

/-- A topic has the device of its last seed. -/
theorem find?_devices {seeds : List Seed} (h : Legible seeds) (topic : String) :
    (devices seeds).find? topic = (last? seeds topic).bind device? := by
  induction seeds using List.reverseRecOn with
  | nil => rfl
  | append_singleton seeds s ih =>
    rw [devices_concat, last?_concat, ih (legible_left h)]
    simp only [inbound, Inbound.effect, isEmpty_payload, String.isEmpty_iff]
    by_cases ht : s.topic = topic
    · subst ht
      rw [if_pos rfl, if_pos rfl, Option.bind_some, device?]
      by_cases hempty : s.metadata = ""
      · rw [if_pos hempty, if_pos hempty]
      · rw [if_neg hempty, if_neg hempty]
        -- what can be read takes the place of what was there
        have hread := h.readable s (by simp) hempty
        obtain ⟨m, hm⟩ := Option.isSome_iff_exists.mp hread
        have hd : Device.announced? s.topic s.payload = some _ :=
          Device.announced?_eq_some_iff.mpr ⟨m, hm, rfl⟩
        rw [hd, Option.some_or]
    · rw [if_neg ht, if_neg ht]

theorem device?_eq_some_iff {s : Seed} {d : Device} :
    s.device? = some d ↔ s.metadata ≠ "" ∧ ∃ m, Metadata.decode? s.payload = some m ∧
      d = { ({ topic := s.topic } : Device).withMetadata m with reachable := true } := by
  rw [device?, Option.ite_none_left_eq_some, Device.announced?_eq_some_iff]

/-- A device that is there was announced by the last seed of its topic. -/
theorem last?_of_find?_devices {seeds : List Seed} (h : Legible seeds) {topic : String} {d : Device}
    (hd : (devices seeds).find? topic = some d) :
    ∃ s m, last? seeds topic = some s ∧ s.metadata ≠ "" ∧ Metadata.decode? s.payload = some m ∧
      d = { ({ topic } : Device).withMetadata m with reachable := true } := by
  rw [find?_devices h] at hd
  obtain ⟨s, hlast, hs⟩ := Option.bind_eq_some_iff.mp hd
  obtain ⟨hne, m, hm, heq⟩ := device?_eq_some_iff.mp hs
  rw [(mem_of_last? hlast).2] at heq
  exact ⟨s, m, hlast, hne, hm, heq⟩

/-- What the seeds leave is decided topic by topic. -/
theorem devices_eq_of_filter {seeds seeds' : List Seed} (h : Legible seeds) (h' : Legible seeds')
    (hsame : ∀ topic, seeds'.filter (·.topic = topic) = seeds.filter (·.topic = topic)) :
    devices seeds' = devices seeds := by
  apply SortedMap.ext_find?
  intro topic
  rw [find?_devices h', find?_devices h, last?, last?, hsame]

/-- There is a device where the daemon expects one. -/
theorem isSome_find?_devices {seeds : List Seed} (h : Legible seeds) (topic : String) :
    ((devices seeds).find? topic).isSome ↔ (expected seeds).find? topic = some true := by
  rw [find?_devices h, find?_expected]
  cases hlast : last? seeds topic with
  | none => simp
  | some s =>
    rw [Option.bind_some, Option.map_some, device?]
    by_cases hempty : s.metadata = ""
    · simp [hempty]
    · obtain ⟨hmem, -⟩ := mem_of_last? hlast
      obtain ⟨m, hm⟩ := Option.isSome_iff_exists.mp (h.readable s hmem hempty)
      have hd : Device.announced? s.topic s.payload = some _ :=
        Device.announced?_eq_some_iff.mpr ⟨m, hm, rfl⟩
      simp [hempty, hd]

/-- The daemon waits for as many devices as the seeds leave. -/
theorem size_devices {seeds : List Seed} (h : Legible seeds) :
    (devices seeds).size = present seeds := by
  let there := ((expected seeds).entries.filter (·.2)).map Prod.fst
  have hthere : there.Nodup := by
    refine List.Nodup.sublist (List.Sublist.map _ List.filter_sublist) ?_
    exact SortedMap.nodup_keys (expected seeds)
  have hmem : ∀ topic, topic ∈ (devices seeds).keys ↔ topic ∈ there := by
    intro topic
    rw [SortedMap.mem_keys_iff, isSome_find?_devices h, SortedMap.find?_eq_some_iff]
    simp [there, SortedMap.toList]
  have hperm : (devices seeds).keys.Perm there :=
    (List.perm_ext_iff_of_nodup (SortedMap.nodup_keys _) hthere).mpr hmem
  have hlength := hperm.length_eq
  have hcount : there.length = present seeds := by
    rw [List.length_map, ← List.countP_eq_length_filter, present, SortedMap.values,
      List.countP_map]
    rfl
  rw [← hcount, ← hlength]
  exact (List.length_map _).symm

theorem present_eq_of_filter {seeds seeds' : List Seed} (h : Legible seeds) (h' : Legible seeds')
    (hsame : ∀ topic, seeds'.filter (·.topic = topic) = seeds.filter (·.topic = topic)) :
    present seeds' = present seeds := by
  rw [← size_devices h, ← size_devices h', devices_eq_of_filter h h' hsame]

/-! ## The events -/

/-- The events that come of some seeds. -/
def events (seeds : List Seed) : List Event := Session.history {} (seeds.map call)

/-- A seed that only deletes what is not there. -/
def Idle (before : List Seed) (s : Seed) : Prop :=
  s.metadata = "" ∧ (expected before).find? s.topic ≠ some true

theorem history_append (r : Registry) (cs cs' : List Call) :
    Session.history r (cs ++ cs') =
      Session.history r cs ++ Session.history (cs.foldl Registry.call r) cs' := by
  induction cs generalizing r with
  | nil => rfl
  | cons c rest ih =>
    rw [List.cons_append, Session.history, ih, Session.history, List.append_assoc]
    rfl

theorem events_append (seeds more : List Seed) :
    events (seeds ++ more) =
      events seeds ++ Session.history ((seeds.map call).foldl Registry.call {}) (more.map call) := by
  rw [events, List.map_append, history_append, events]

theorem events_concat (seeds : List Seed) (s : Seed) :
    events (seeds ++ [s]) = events seeds ++ s.call.events (devices seeds) := by
  rw [events_append]
  show _ ++ (_ ++ []) = _
  rw [List.append_nil, devices]

theorem keyed_empty : Registry.Keyed SortedMap.empty := by
  intro topic d h
  exact absurd h (by simp)

theorem keyed_devices {seeds : List Seed} (h : Legible seeds) : Registry.Keyed (devices seeds) :=
  Session.keyed_foldl_call (named_of_legible h) keyed_empty

/-- Recording the events gives the devices. -/
theorem foldl_record_events {seeds : List Seed} (h : Legible seeds) :
    (events seeds).foldl Event.record SortedMap.empty = devices seeds :=
  Session.foldl_record_history (r := {}) (named_of_legible h) keyed_empty

/-- A seed gives no event if it is idle, and one event otherwise. -/
theorem events_call {before : List Seed} (hbefore : Legible before) {s : Seed}
    (hread : s.metadata ≠ "" → (Metadata.decode? s.payload).isSome) :
    (Idle before s ∧ s.call.events (devices before) = []) ∨
      (¬ Idle before s ∧ ∃ e, s.call.events (devices before) = [e]) := by
  rw [call, Call.events, isEmpty_payload]
  by_cases hempty : s.metadata = ""
  · rw [if_pos (String.isEmpty_iff.mpr hempty)]
    cases hfind : (devices before).find? s.topic with
    | none =>
      refine Or.inl ⟨⟨hempty, ?_⟩, rfl⟩
      rw [Ne, ← isSome_find?_devices hbefore, hfind]
      simp
    | some d =>
      refine Or.inr ⟨fun hidle => hidle.2 ?_, _, rfl⟩
      rw [← isSome_find?_devices hbefore, hfind]
      rfl
  · rw [if_neg (by rwa [String.isEmpty_iff])]
    obtain ⟨m, hm⟩ := Option.isSome_iff_exists.mp (hread hempty)
    have hd : Device.announced? s.topic s.payload = some _ :=
      Device.announced?_eq_some_iff.mpr ⟨m, hm, rfl⟩
    exact Or.inr ⟨fun hidle => hempty hidle.1, _, by rw [hd]; rfl⟩

/-- An event that is still to come belongs to a seed that is not idle. -/
theorem split_of_events {seeds : List Seed} (h : Legible seeds) {l l' : List Event} {e : Event}
    (hevents : events seeds = l ++ e :: l') :
    ∃ before s after, seeds = before ++ s :: after ∧ events before = l ∧ ¬ Idle before s := by
  induction seeds using List.reverseRecOn generalizing l' with
  | nil => exact absurd hevents (by simp [events, Session.history])
  | append_singleton seeds s ih =>
    have hseeds := legible_left h
    rw [events_concat] at hevents
    have hlater : ∀ {k}, events seeds = l ++ e :: k →
        ∃ before s₀ after, seeds ++ [s] = before ++ s₀ :: after ∧ events before = l ∧
          ¬ Idle before s₀ := by
      intro k hk
      obtain ⟨before, s₀, after, hsplit, hl, hidle⟩ := ih hseeds hk
      exact ⟨before, s₀, after ++ [s], by rw [hsplit, List.append_assoc]; rfl, hl, hidle⟩
    rcases events_call hseeds (h.readable s (by simp)) with ⟨-, hnone⟩ | ⟨hbusy, e', hone⟩
    · rw [hnone, List.append_nil] at hevents
      exact hlater hevents
    · rw [hone] at hevents
      -- the event is the last one or one of those before it
      rcases List.eq_nil_or_concat l' with rfl | ⟨k, e'', rfl⟩
      · obtain ⟨hl, -⟩ := List.append_inj' hevents rfl
        exact ⟨seeds, s, [], rfl, hl, hbusy⟩
      · have hcut : events seeds ++ [e'] = (l ++ e :: k) ++ [e''] := by
          rw [hevents, List.concat_eq_append, List.append_assoc]
          rfl
        exact hlater (List.append_inj' hcut rfl).1

theorem updated_of_mem_events {seeds : List Seed} {d : Device}
    (h : Event.updated d ∈ events seeds) :
    ∃ s ∈ seeds, Device.announced? s.topic s.payload = some d := by
  induction seeds using List.reverseRecOn with
  | nil => exact absurd h (by simp [events, Session.history])
  | append_singleton seeds s ih =>
    rw [events_concat] at h
    rcases List.mem_append.mp h with hold | hnew
    · obtain ⟨s₀, hs₀, hd⟩ := ih hold
      exact ⟨s₀, List.mem_append_left _ hs₀, hd⟩
    · refine ⟨s, by simp, ?_⟩
      rw [call, Call.events] at hnew
      split at hnew
      · simp at hnew
      · simpa using hnew

end Seed
end HomeSync
