import HomeSync.Proofs.Registry.History

/-
Events as changes of a device map.

Every call on a registry comes with the events that it queues.  They are read off
the devices before the call, and recording them in a map of these devices gives
the devices after it.  A stream that is followed holds what it held before and
these events behind it.
-/
namespace HomeSync

/-- The devices that are known after an event. -/
def Event.record (known : SortedMap String Device) : Event → SortedMap String Device
  | .updated d => known.insert d.topic d
  | .removed d => known.erase d.topic

/-- A call that may change the devices, with the order in which it goes through
them. -/
inductive Call where
  | announce (topic : String) (payload : Payload)
  | leave (token : String) (listing : Listing)

namespace Call

/-- An announcement names its topic, a leave message need not. -/
def Named : Call → Prop
  | .announce topic _ => topic ≠ ""
  | .leave _ _ => True

/-- The events of a call: one for an announcement that can be read, one for a
device that is deleted, and one for each device that a leave message means. -/
def events (devices : SortedMap String Device) : Call → List Event
  | .announce topic payload =>
    if payload.isEmpty then (devices.find? topic).toList.map .removed
    else (Device.announced? topic payload).toList.map .updated
  | .leave token listing =>
    ((listing.list devices.values).filter (·.leavesWith token)).map
      fun d => .updated { d with reachable := false }

end Call

namespace Registry

def call (r : Registry) : Call → Registry
  | .announce topic payload => r.add topic payload
  | .leave token listing => r.leave token listing

/-- Every device is kept under its own topic. -/
def Keyed (devices : SortedMap String Device) : Prop :=
  ∀ topic d, devices.find? topic = some d → d.topic = topic

/-! ## Recording updates -/

theorem find?_foldl_updated_of_absent {ds : List Device} {topic : String}
    (h : ∀ d ∈ ds, d.topic ≠ topic) (known : SortedMap String Device) :
    ((ds.map Event.updated).foldl Event.record known).find? topic = known.find? topic := by
  induction ds generalizing known with
  | nil => rfl
  | cons d rest ih =>
    rw [List.map_cons, List.foldl_cons, ih fun d' hd' => h d' (List.mem_cons_of_mem d hd'),
      Event.record, SortedMap.find?_insert, if_neg (h d List.mem_cons_self)]

theorem find?_foldl_updated_of_mem {ds : List Device} {d : Device} (hmem : d ∈ ds)
    (honly : ∀ d' ∈ ds, d'.topic = d.topic → d' = d) (known : SortedMap String Device) :
    ((ds.map Event.updated).foldl Event.record known).find? d.topic = some d := by
  induction ds generalizing known with
  | nil => exact absurd hmem (by simp)
  | cons d' rest ih =>
    rw [List.map_cons, List.foldl_cons]
    by_cases hrest : d ∈ rest
    · exact ih hrest (fun e he => honly e (List.mem_cons_of_mem d' he)) _
    · obtain rfl : d = d' := (List.mem_cons.mp hmem).resolve_right hrest
      have habsent : ∀ e ∈ rest, e.topic ≠ d.topic := by
        intro e he htopic
        rw [honly e (List.mem_cons_of_mem d he) htopic] at he
        exact hrest he
      rw [find?_foldl_updated_of_absent habsent, Event.record, SortedMap.find?_insert_self]

theorem mem_values_iff_of_keyed {devices : SortedMap String Device} (hkeyed : Keyed devices)
    {d : Device} : d ∈ devices.values ↔ devices.find? d.topic = some d := by
  rw [SortedMap.mem_values_iff]
  constructor
  · rintro ⟨topic, h⟩
    rw [hkeyed topic d h]
    exact h
  · exact fun h => ⟨d.topic, h⟩

/-- What a new stream starts with gives the devices, in whatever order it comes. -/
theorem foldl_record_replay {devices : SortedMap String Device} (hkeyed : Keyed devices)
    {ds : List Device} (hperm : ds.Perm devices.values) :
    (ds.map Event.updated).foldl Event.record SortedMap.empty = devices := by
  have hmem : ∀ d, d ∈ ds ↔ devices.find? d.topic = some d := fun d =>
    hperm.mem_iff.trans (mem_values_iff_of_keyed hkeyed)
  apply SortedMap.ext_find?
  intro topic
  cases hfind : devices.find? topic with
  | none =>
    rw [find?_foldl_updated_of_absent, SortedMap.find?_empty]
    intro d hd htopic
    rw [hmem, htopic, hfind] at hd
    exact absurd hd (by simp)
  | some d =>
    have htopic := hkeyed topic d hfind
    rw [← htopic] at hfind ⊢
    refine find?_foldl_updated_of_mem ((hmem d).mpr hfind) (fun e he hte => ?_) _
    rw [hmem, hte, hfind] at he
    exact (Option.some.inj he).symm

/-! ## The events of a call -/

theorem foldl_notify_departing (r : Registry) (token : String) (listing : Listing)
    (start : Registry) :
    (r.departing token listing).foldl (fun r d => r.notify (.updated d)) start =
      ((Call.leave token listing).events r.devices).foldl notify start := by
  have hdepart : r.departing token listing =
      ((listing.list r.devices.values).filter (·.leavesWith token)).map
        fun d => { d with reachable := false } := by
    rw [departing]
    apply List.map_congr_left
    intro d hd
    rw [Device.afterLeave, if_pos (List.mem_filter.mp hd).2]
  rw [hdepart, Call.events, List.foldl_map, List.foldl_map]

/-- A call queues its events, and beside that it only changes the devices. -/
theorem call_eq_notify (r : Registry) (c : Call) :
    r.call c = (c.events r.devices).foldl notify { r with devices := (r.call c).devices } := by
  cases c with
  | leave token listing =>
    show r.leave token listing = _
    rw [call, devices_leave, ← foldl_notify_departing, leave]
  | announce topic payload =>
    show r.add topic payload = _
    rw [call, Call.events, add]
    by_cases hp : payload.isEmpty = true
    · rw [if_pos hp, if_pos hp, devices_remove, remove]
      cases hfind : r.devices.find? topic with
      | none => rw [SortedMap.erase_of_find?_none hfind]; rfl
      | some d => rfl
    · rw [if_neg hp, if_neg hp]
      cases Device.announced? topic payload <;> rfl

theorem devices_call (r : Registry) (c : Call) (topic : String) :
    (r.call c).devices.find? topic =
      match c with
      | .announce t payload => (Inbound.announce t payload).effect topic (r.devices.find? topic)
      | .leave token _ => (r.devices.find? topic).map (·.afterLeave token) := by
  cases c with
  | announce t payload => exact find?_add r t payload topic
  | leave token listing =>
    show (r.leave token listing).devices.find? topic = _
    rw [devices_leave, SortedMap.find?_map]

theorem afterLeave_topic (d : Device) (token : String) : (d.afterLeave token).topic = d.topic := by
  rw [Device.afterLeave]
  split <;> rfl

theorem keyed_call {r : Registry} {c : Call} (hkeyed : Keyed r.devices) (hnamed : c.Named) :
    Keyed (r.call c).devices := by
  intro topic d hfind
  rw [devices_call] at hfind
  cases c with
  | leave token listing =>
    obtain ⟨d₀, hd₀, rfl⟩ := Option.map_eq_some_iff.mp hfind
    rw [afterLeave_topic]
    exact hkeyed topic d₀ hd₀
  | announce t payload =>
    simp only [Inbound.effect] at hfind
    by_cases ht : t = topic
    · subst ht
      rw [if_pos rfl] at hfind
      by_cases hp : payload.isEmpty = true
      · rw [if_pos hp] at hfind
        exact absurd hfind (by simp)
      · rw [if_neg hp, Option.or_eq_some_iff] at hfind
        rcases hfind with hnew | ⟨-, hold⟩
        · exact Device.announced?_topic hnamed hnew
        · exact hkeyed t d hold
    · rw [if_neg ht] at hfind
      exact hkeyed topic d hfind

/-- A leave message is told to its followers device by device, in any order. -/
theorem foldl_record_departing {devices : SortedMap String Device} (hkeyed : Keyed devices)
    (token : String) (listing : Listing) :
    ((Call.leave token listing).events devices).foldl Event.record devices =
      devices.map fun _ d => d.afterLeave token := by
  let left := ((listing.list devices.values).filter (·.leavesWith token)).map
    fun d => ({ d with reachable := false } : Device)
  have hmem : ∀ d, d ∈ left ↔
      ∃ d₀, devices.find? d₀.topic = some d₀ ∧ d₀.leavesWith token = true ∧
        { d₀ with reachable := false } = d := by
    intro d
    simp only [left, List.mem_map, List.mem_filter, (listing.perm _).mem_iff,
      mem_values_iff_of_keyed hkeyed, and_assoc]
  have hevents : (Call.leave token listing).events devices = left.map Event.updated := by
    rw [Call.events, List.map_map]
    rfl
  rw [hevents]
  apply SortedMap.ext_find?
  intro topic
  rw [SortedMap.find?_map]
  -- every device has one topic, so the order among the events does not matter
  by_cases hleft : ∃ d ∈ left, d.topic = topic
  · obtain ⟨d, hd, rfl⟩ := hleft
    obtain ⟨d₀, hfind, hl, rfl⟩ := (hmem d).mp hd
    have honly : ∀ e ∈ left, e.topic = d₀.topic → e = { d₀ with reachable := false } := by
      intro e he htopic
      obtain ⟨e₀, hfind', -, rfl⟩ := (hmem e).mp he
      have htopic : e₀.topic = d₀.topic := htopic
      rw [htopic, hfind] at hfind'
      rw [Option.some.inj hfind']
    have hrecorded := find?_foldl_updated_of_mem hd honly devices
    refine hrecorded.trans ?_
    show some _ = (devices.find? d₀.topic).map _
    rw [hfind, Option.map_some, Device.afterLeave, if_pos hl]
  · have habsent : ∀ d ∈ left, d.topic ≠ topic := fun d hd htopic => hleft ⟨d, hd, htopic⟩
    rw [find?_foldl_updated_of_absent habsent]
    cases hfind : devices.find? topic with
    | none => rfl
    | some d₀ =>
      have htopic := hkeyed topic d₀ hfind
      have hstays : d₀.leavesWith token ≠ true := fun hl =>
        hleft ⟨{ d₀ with reachable := false }, (hmem _).mpr ⟨d₀, htopic ▸ hfind, hl, rfl⟩, htopic⟩
      rw [Option.map_some, Device.afterLeave, if_neg hstays]

/-- Recording the events of a call gives the devices after it. -/
theorem devices_call_eq_foldl_record {r : Registry} {c : Call} (hkeyed : Keyed r.devices)
    (hnamed : c.Named) :
    (r.call c).devices = (c.events r.devices).foldl Event.record r.devices := by
  cases c with
  | leave token listing =>
    rw [foldl_record_departing hkeyed]
    exact devices_leave r token listing
  | announce topic payload =>
    apply SortedMap.ext_find?
    intro t
    rw [devices_call, Call.events]
    simp only [Inbound.effect]
    by_cases hp : payload.isEmpty = true
    · rw [if_pos hp, if_pos hp]
      cases hfind : r.devices.find? topic with
      | none =>
        by_cases ht : topic = t
        · rw [if_pos ht, ← ht]
          exact hfind.symm
        · rw [if_neg ht]
          rfl
      | some d =>
        show _ = (r.devices.erase d.topic).find? t
        rw [hkeyed topic d hfind, SortedMap.find?_erase]
    · rw [if_neg hp, if_neg hp]
      by_cases ht : topic = t
      · subst ht
        rw [if_pos rfl]
        cases hd : Device.announced? topic payload with
        | none => rfl
        | some d =>
          show _ = (r.devices.insert d.topic d).find? topic
          rw [Device.announced?_topic hnamed hd, SortedMap.find?_insert_self, Option.some_or]
      · rw [if_neg ht]
        cases hd : Device.announced? topic payload with
        | none => rfl
        | some d =>
          show _ = (r.devices.insert d.topic d).find? t
          rw [Device.announced?_topic hnamed hd, SortedMap.find?_insert, if_neg ht]

end Registry
end HomeSync
