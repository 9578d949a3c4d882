import HomeSync.Proofs.Registry.Stream

/-
Every stream replicates the registry.

A session is a registry with receivers that come, take events and go.  What has
been delivered to a receiver is what it took and what still waits for it.  That
is the devices at the time it came, followed by the events of the calls after
that, and nothing that any other receiver does can be seen in it.
-/
namespace HomeSync

/-- A registry and the events taken out of its streams so far, with their
streams. -/
structure Session where
  registry : Registry := {}
  taken : List (Nat × Event) := []

namespace Session

inductive Action where
  | call (c : Call)
  | subscribe (listing : Listing)
  | drop (id : Nat)
  | take (id : Nat)

def step (s : Session) : Action → Session
  | .call c => { s with registry := s.registry.call c }
  | .subscribe listing => { s with registry := (s.registry.subscribe listing).1 }
  | .drop id => { s with registry := s.registry.drop id }
  | .take id =>
    match s.registry.pending id with
    | [] => s
    | e :: _ => ⟨s.registry.skip id 1, s.taken ++ [(id, e)]⟩

def run (actions : List Action) : Session := actions.foldl step {}

def takenFrom (s : Session) (id : Nat) : List Event :=
  (s.taken.filter (·.1 == id)).map (·.2)

/-- Everything that was ever put into a stream. -/
def delivered (s : Session) (id : Nat) : List Event := s.takenFrom id ++ s.registry.pending id

/-- The calls among the actions. -/
def calls (actions : List Action) : List Call :=
  actions.filterMap fun
    | .call c => some c
    | _ => none

/-- How many streams were opened, which is the id of the next one. -/
def opened (actions : List Action) : Nat :=
  actions.countP fun
    | .subscribe _ => true
    | _ => false

/-! ## What the calls alone make of the registry -/

/-- The events of a list of calls, each at the devices that it finds. -/
def history (r : Registry) : List Call → List Event
  | [] => []
  | c :: rest => c.events r.devices ++ history (r.call c) rest

theorem devices_call_congr {r r' : Registry} (h : r.devices = r'.devices) (c : Call) :
    (r.call c).devices = (r'.call c).devices := by
  apply SortedMap.ext_find?
  intro topic
  rw [Registry.devices_call, Registry.devices_call, h]

theorem history_congr (cs : List Call) {r r' : Registry} (h : r.devices = r'.devices) :
    history r cs = history r' cs := by
  induction cs generalizing r r' with
  | nil => rfl
  | cons c rest ih => rw [history, history, h, ih (devices_call_congr h c)]

theorem keyed_foldl_call {cs : List Call} (hnamed : ∀ c ∈ cs, c.Named) {r : Registry}
    (hkeyed : Registry.Keyed r.devices) : Registry.Keyed (cs.foldl Registry.call r).devices := by
  induction cs generalizing r with
  | nil => exact hkeyed
  | cons c rest ih =>
    exact ih (fun c' hc' => hnamed c' (List.mem_cons_of_mem c hc'))
      (Registry.keyed_call hkeyed (hnamed c List.mem_cons_self))

/-- Recording the events of the calls follows the devices. -/
theorem foldl_record_history {cs : List Call} (hnamed : ∀ c ∈ cs, c.Named) {r : Registry}
    (hkeyed : Registry.Keyed r.devices) :
    (history r cs).foldl Event.record r.devices = (cs.foldl Registry.call r).devices := by
  induction cs generalizing r with
  | nil => rfl
  | cons c rest ih =>
    have hc := hnamed c List.mem_cons_self
    rw [history, List.foldl_append, ← Registry.devices_call_eq_foldl_record hkeyed hc]
    exact ih (fun c' hc' => hnamed c' (List.mem_cons_of_mem c hc'))
      (Registry.keyed_call hkeyed hc)

/-! ## Sessions -/

/-- No stream and no taken event has an id that is still to be given out. -/
structure Numbered (s : Session) : Prop where
  registry : s.registry.Numbered
  taken : ∀ e ∈ s.taken, e.1 < s.registry.nextStream

theorem mem_streams_of_pending {r : Registry} {id : Nat} {e : Event} {q : List Event}
    (h : r.pending id = e :: q) : ∃ s ∈ r.streams, s.id = id := by
  rw [Registry.pending] at h
  cases hfind : r.streams.find? fun s => s.id == id with
  | none =>
    rw [hfind] at h
    exact absurd h (by simp)
  | some s => exact ⟨s, List.mem_of_find?_eq_some hfind, by simpa using List.find?_some hfind⟩

theorem numbered_step {s : Session} (h : s.Numbered) (a : Action) : (s.step a).Numbered := by
  cases a with
  | call c =>
    refine ⟨Registry.numbered_call h.registry c, fun e he => ?_⟩
    show e.1 < (s.registry.call c).nextStream
    rw [Registry.nextStream_call]
    exact h.taken e he
  | subscribe listing =>
    exact ⟨Registry.numbered_subscribe h.registry listing, fun e he =>
      Nat.lt_succ_of_lt (h.taken e he)⟩
  | drop id => exact ⟨Registry.numbered_drop h.registry id, h.taken⟩
  | take id =>
    rw [step]
    split
    · exact h
    · rename_i e q hpending
      refine ⟨Registry.numbered_skip h.registry id 1, fun e' he' => ?_⟩
      rcases List.mem_append.mp he' with he' | he'
      · exact h.taken e' he'
      · obtain rfl := List.mem_singleton.mp he'
        obtain ⟨stream, hs, rfl⟩ := mem_streams_of_pending hpending
        exact h.registry stream hs

theorem devices_step (s : Session) (a : Action) :
    (s.step a).registry.devices = ((calls [a]).foldl Registry.call s.registry).devices := by
  cases a with
  | call c => rfl
  | subscribe listing => rfl
  | drop id => rfl
  | take id =>
    rw [step]
    split <;> rfl

theorem nextStream_step (s : Session) (a : Action) :
    (s.step a).registry.nextStream = s.registry.nextStream + opened [a] := by
  cases a with
  | call c => exact Registry.nextStream_call s.registry c
  | subscribe listing => rfl
  | drop id => rfl
  | take id =>
    rw [step]
    split <;> rfl

theorem foldl_call_congr (cs : List Call) {r r' : Registry} (h : r.devices = r'.devices) :
    (cs.foldl Registry.call r).devices = (cs.foldl Registry.call r').devices := by
  induction cs generalizing r r' with
  | nil => exact h
  | cons c rest ih => exact ih (devices_call_congr h c)

theorem calls_cons (a : Action) (rest : List Action) :
    calls (a :: rest) = calls [a] ++ calls rest := by
  rw [calls, calls, calls, ← List.filterMap_append, List.singleton_append]

theorem calls_append (xs ys : List Action) : calls (xs ++ ys) = calls xs ++ calls ys :=
  List.filterMap_append

theorem devices_foldl_step (actions : List Action) (s : Session) :
    (actions.foldl step s).registry.devices =
      ((calls actions).foldl Registry.call s.registry).devices := by
  induction actions generalizing s with
  | nil => rfl
  | cons a rest ih =>
    rw [List.foldl_cons, ih, calls_cons, List.foldl_append]
    exact foldl_call_congr (calls rest) (devices_step s a)

theorem nextStream_foldl_step (actions : List Action) (s : Session) :
    (actions.foldl step s).registry.nextStream = s.registry.nextStream + opened actions := by
  induction actions generalizing s with
  | nil => rfl
  | cons a rest ih =>
    rw [List.foldl_cons, ih, nextStream_step, opened, opened, opened, List.countP_cons (l := rest),
      List.countP_singleton]
    omega

theorem numbered_foldl_step (actions : List Action) {s : Session} (h : s.Numbered) :
    (actions.foldl step s).Numbered :=
  List.foldlRecOn actions step h fun _ hs a _ => numbered_step hs a

theorem nextStream_run (actions : List Action) :
    (run actions).registry.nextStream = opened actions := by
  rw [run, nextStream_foldl_step]
  exact Nat.zero_add _

theorem numbered_run (actions : List Action) : (run actions).Numbered := by
  apply numbered_foldl_step
  exact ⟨fun s hs => absurd hs (by simp), fun e he => absurd he (by simp)⟩

/-! ## One receiver -/

/-- A live receiver and all that was delivered to it. -/
def Receives (s : Session) (id : Nat) (events : List Event) : Prop :=
  ∃ queue, s.registry.Follows id queue ∧ s.takenFrom id ++ queue = events

theorem delivered_of_receives {s : Session} {id : Nat} {events : List Event}
    (h : s.Receives id events) : s.delivered id = events := by
  obtain ⟨queue, hfollows, hevents⟩ := h
  rw [delivered, Registry.pending_of_follows hfollows, hevents]

/-- Only a call delivers anything, and taking an event delivers nothing new. -/
theorem receives_step {s : Session} {id : Nat} {events : List Event} (h : s.Receives id events)
    {a : Action} (hlive : a ≠ .drop id) :
    (s.step a).Receives id (events ++ history s.registry (calls [a])) := by
  obtain ⟨queue, hfollows, rfl⟩ := h
  cases a with
  | call c =>
    refine ⟨queue ++ c.events s.registry.devices, Registry.follows_call hfollows c, ?_⟩
    show s.takenFrom id ++ (queue ++ _) = (s.takenFrom id ++ queue) ++ (_ ++ [])
    rw [List.append_nil, List.append_assoc]
  | subscribe listing =>
    exact ⟨queue, Registry.follows_subscribe_of_follows hfollows listing,
      (List.append_nil _).symm⟩
  | drop id' =>
    have hne : id ≠ id' := fun heq => hlive (by rw [heq])
    exact ⟨queue, Registry.follows_drop_of_ne hfollows hne, (List.append_nil _).symm⟩
  | take id' =>
    show (s.step (.take id')).Receives id ((s.takenFrom id ++ queue) ++ [])
    rw [List.append_nil, step]
    split
    · exact ⟨queue, hfollows, rfl⟩
    · rename_i e rest hpending
      -- an event that is taken moves within the stream or belongs to another one
      by_cases hid : id = id'
      · subst hid
        rw [Registry.pending_of_follows hfollows] at hpending
        subst hpending
        refine ⟨rest, Registry.follows_skip hfollows 1, ?_⟩
        simp [takenFrom]
      · refine ⟨queue, Registry.follows_skip_of_ne hfollows hid 1, ?_⟩
        have hother : (id' == id) = false := by simpa using fun heq => hid heq.symm
        simp [takenFrom, hother]

theorem receives_foldl_step {actions : List Action} {s : Session} {id : Nat} {events : List Event}
    (h : s.Receives id events) (hlive : .drop id ∉ actions) :
    (actions.foldl step s).Receives id (events ++ history s.registry (calls actions)) := by
  induction actions generalizing s events with
  | nil => simpa [calls, history] using h
  | cons a rest ih =>
    have ha : a ≠ .drop id := fun heq => hlive (heq ▸ List.mem_cons_self)
    have hrest : .drop id ∉ rest := fun hmem => hlive (List.mem_cons_of_mem a hmem)
    have hall := ih (receives_step h ha) hrest
    rw [history_congr (calls rest) (devices_step s a), List.append_assoc] at hall
    have hsplit : history s.registry (calls [a]) ++
        history ((calls [a]).foldl Registry.call s.registry) (calls rest) =
        history s.registry (calls (a :: rest)) := by
      rw [calls_cons]
      cases a <;> simp [calls, history]
    rw [hsplit] at hall
    exact hall

theorem receives_subscribe {s : Session} (h : s.Numbered) (listing : Listing) :
    (s.step (.subscribe listing)).Receives s.registry.nextStream
      ((listing.list s.registry.devices.values).map Event.updated) := by
  refine ⟨_, Registry.follows_subscribe h.registry listing, ?_⟩
  have hnone : s.takenFrom s.registry.nextStream = [] := by
    rw [takenFrom, List.map_eq_nil_iff, List.filter_eq_nil_iff]
    intro e he hid
    have hlt := h.taken e he
    rw [beq_iff_eq.mp hid] at hlt
    exact Nat.lt_irrefl _ hlt
  show s.takenFrom s.registry.nextStream ++ _ = _
  rw [hnone, List.nil_append]

/-! ## Replication -/

/-- What is delivered to a receiver that comes in the middle of a session and
stays: the devices it finds and the events of the later calls. -/
theorem delivered_run (before after : List Action) (listing : Listing)
    (hlive : .drop (opened before) ∉ after) :
    (run (before ++ .subscribe listing :: after)).delivered (opened before) =
      (listing.list ((calls before).foldl Registry.call {}).devices.values).map Event.updated ++
        history ((calls before).foldl Registry.call {}) (calls after) := by
  have hdevices : (run before).registry.devices =
      ((calls before).foldl Registry.call {}).devices := devices_foldl_step before {}
  have hstart := receives_subscribe (numbered_run before) listing
  rw [nextStream_run] at hstart
  have hend := receives_foldl_step hstart hlive
  have hsame : ((run before).step (.subscribe listing)).registry.devices =
      ((calls before).foldl Registry.call {}).devices := hdevices
  rw [history_congr (calls after) hsame, hdevices] at hend
  rw [run, List.foldl_append, List.foldl_cons]
  exact delivered_of_receives hend

/-- A receiver that stays has the devices of the registry: it was told of each
device once when it came and of every change since, whoever else listens. -/
theorem stream_replicates_registry (before after : List Action) (listing : Listing)
    (hnamed : ∀ c ∈ calls (before ++ after), c.Named) (hlive : .drop (opened before) ∉ after) :
    ((run (before ++ .subscribe listing :: after)).delivered (opened before)).foldl
        Event.record SortedMap.empty =
      (run (before ++ .subscribe listing :: after)).registry.devices ∧
    (run (before ++ .subscribe listing :: after)).delivered (opened before) =
      (listing.list ((calls before).foldl Registry.call {}).devices.values).map Event.updated ++
        history ((calls before).foldl Registry.call {}) (calls after) ∧
    ∀ before' after', calls before' = calls before → calls after' = calls after →
      .drop (opened before') ∉ after' →
      (run (before' ++ .subscribe listing :: after')).delivered (opened before') =
        (run (before ++ .subscribe listing :: after)).delivered (opened before) := by
  have hdelivered := delivered_run before after listing hlive
  refine ⟨?_, hdelivered, fun before' after' hbefore hafter hlive' => ?_⟩
  · rw [calls_append] at hnamed
    have hkeyed : Registry.Keyed ((calls before).foldl Registry.call {}).devices := by
      refine keyed_foldl_call (fun c hc => hnamed c (List.mem_append_left _ hc)) ?_
      intro topic d hfind
      exact absurd hfind (by simp)
    rw [hdelivered, List.foldl_append,
      Registry.foldl_record_replay hkeyed (listing.perm _),
      foldl_record_history (fun c hc => hnamed c (List.mem_append_right _ hc)) hkeyed,
      ← List.foldl_append, run, devices_foldl_step, calls_append, calls_cons]
    rfl
  · rw [delivered_run before' after' listing hlive', hdelivered, hbefore, hafter]

/-- The second of two receivers, one of which is gone before the lamp leaves. -/
theorem stream_replicates_registry_lamp :
    (∀ c ∈ calls [.call (.announce "hall/lamp" (Utf8.encode "[]")), .subscribe .byTopic,
      .take 1, .drop 0, .call (.leave "hall/lamp" .byTopic)], c.Named) ∧
    (run [.call (.announce "hall/lamp" (Utf8.encode "[]")), .subscribe .byTopic,
      .subscribe .byTopic, .take 1, .drop 0, .call (.leave "hall/lamp" .byTopic)]).delivered 1 =
      [.updated { topic := "hall/lamp", reachable := true },
        .updated { topic := "hall/lamp", reachable := false }] := by
  have hnamed : ∀ c ∈ calls [.call (.announce "hall/lamp" (Utf8.encode "[]")),
      .subscribe .byTopic, .take 1, .drop 0, .call (.leave "hall/lamp" .byTopic)], c.Named := by
    simp [calls, Call.Named]
  refine ⟨hnamed, ?_⟩
  have hdelivered := (stream_replicates_registry
    [.call (.announce "hall/lamp" (Utf8.encode "[]")), .subscribe .byTopic]
    [.take 1, .drop 0, .call (.leave "hall/lamp" .byTopic)] .byTopic hnamed
    (by simp [opened])).2.1
  refine hdelivered.trans ?_
  decide +kernel

end Session
end HomeSync
