import HomeSync.Proofs.Device.Made
import HomeSync.Router
import Mathlib.Data.Set.Card

/-
What a registry knows after a history of calls.

A call acts on each topic by itself: the device known under a topic afterwards
depends on the call and on the device known there before, and on nothing else.
So the registry can be read off the history topic by topic.  What counts is the
last announcement that was effective, that is, empty or readable, and the leave
messages after it.
-/
namespace HomeSync

namespace Inbound

/-- What a call makes of the device known under a topic. -/
def effect (topic : String) (known : Option Device) : Inbound → Option Device
  | .announce t payload =>
    if t = topic then
      if payload.isEmpty then none else (Device.announced? topic payload).or known
    else known
  | .leave token => known.map (·.afterLeave token)

/-- An announcement counts if it deletes or can be read. -/
def EffectiveOn (topic : String) : Inbound → Prop
  | .announce t payload => t = topic ∧ (payload = [] ∨ (Metadata.decode? payload).isSome)
  | .leave _ => False

/-- Whether a call is a leave message that means a device. -/
def dismisses (d : Device) : Inbound → Bool
  | .announce _ _ => false
  | .leave token => d.leavesWith token

/-- A call that does not count leaves a topic what is known there, but for the flag of a
device that it dismisses. -/
theorem effect_of_not_effective {topic : String} {c : Inbound} (h : ¬ c.EffectiveOn topic)
    (known : Option Device) :
    c.effect topic known =
      known.map fun d => { d with reachable := d.reachable && !c.dismisses d } := by
  cases c with
  | leave token =>
    refine Option.map_congr fun d _ => ?_
    rw [Device.afterLeave, dismisses]
    by_cases hl : d.leavesWith token = true <;> simp [hl]
  | announce t payload =>
    have hkept : known.map (fun d =>
        { d with reachable := d.reachable && !(announce t payload).dismisses d }) = known := by
      cases known <;> simp [dismisses]
    rw [hkept]
    by_cases ht : t = topic
    · have hread : ¬ (payload = [] ∨ (Metadata.decode? payload).isSome) := fun hp => h ⟨ht, hp⟩
      rw [not_or, Option.not_isSome_iff_eq_none] at hread
      rw [effect, if_pos ht, Device.announced?_eq_none_iff.mpr hread.2]
      simp [hread.1]
    · rw [effect, if_neg ht]

end Inbound

namespace Device

/-- The tokens that dismiss an announced device: its topic, and its last will
unless that is empty. -/
theorem leavesWith_withMetadata {topic : String} (hne : topic ≠ "") (m : Metadata)
    (token : String) :
    (({ topic } : Device).withMetadata m).leavesWith token = true ↔
      token = topic ∨ (token ≠ "" ∧ m.lastWill = some token) := by
  have htopic : (({ topic } : Device).withMetadata m).topic = topic := by
    rw [withMetadata_topic, if_neg]
    simpa using hne
  rw [leavesWith, htopic, withMetadata_lastWill, Bool.or_eq_true, beq_iff_eq, beq_iff_eq,
    Option.filter_eq_some_iff, eq_comm (a := topic)]
  simp only [Bool.not_eq_true', String.isEmpty_eq_false_iff]
  rw [and_comm (a := token ≠ "")]

end Device

namespace Registry

/-! ## One topic at a time -/

theorem devices_notify (r : Registry) (e : Event) : (r.notify e).devices = r.devices := rfl

theorem devices_foldl_notify (events : List Device) (r : Registry) :
    (events.foldl (fun r d => r.notify (.updated d)) r).devices = r.devices := by
  induction events generalizing r with
  | nil => rfl
  | cons d rest ih => rw [List.foldl_cons, ih, devices_notify]

theorem devices_leave (r : Registry) (token : String) (listing : Listing) :
    (r.leave token listing).devices = r.devices.map fun _ d => d.afterLeave token := by
  rw [leave, devices_foldl_notify]

theorem devices_remove (r : Registry) (topic : String) :
    (r.remove topic).devices = r.devices.erase topic := by
  rw [remove]
  split
  · rfl
  · rename_i hnone
    exact (SortedMap.erase_of_find?_none hnone).symm

theorem find?_add (r : Registry) (t : String) (payload : Payload) (topic : String) :
    (r.add t payload).devices.find? topic =
      (Inbound.announce t payload).effect topic (r.devices.find? topic) := by
  rw [add, Inbound.effect]
  by_cases hp : payload.isEmpty = true
  · rw [if_pos hp, if_pos hp, devices_remove, SortedMap.find?_erase]
  · rw [if_neg hp, if_neg hp]
    by_cases ht : t = topic
    · subst ht
      rw [if_pos rfl]
      cases Device.announced? t payload with
      | none => rfl
      | some d => simp [devices_notify]
    · rw [if_neg ht]
      cases Device.announced? t payload with
      | none => rfl
      | some d => simp [devices_notify, SortedMap.find?_insert, ht]

theorem find?_apply (r : Registry) (c : Inbound) (topic : String) :
    (r.apply c).devices.find? topic = c.effect topic (r.devices.find? topic) := by
  cases c with
  | announce t payload => exact find?_add r t payload topic
  | leave token =>
    show (r.leave token).devices.find? topic = _
    rw [devices_leave, SortedMap.find?_map, Inbound.effect]

theorem find?_foldl_apply (calls : List Inbound) (r : Registry) (topic : String) :
    (calls.foldl apply r).devices.find? topic =
      calls.foldl (Inbound.effect topic) (r.devices.find? topic) := by
  induction calls generalizing r with
  | nil => rfl
  | cons c rest ih => rw [List.foldl_cons, List.foldl_cons, ih, find?_apply]

/-! ## Calls that are not effective -/

theorem foldl_effect {topic : String} {later : List Inbound}
    (h : ∀ c ∈ later, ¬ c.EffectiveOn topic) (known : Option Device) :
    later.foldl (Inbound.effect topic) known =
      known.map fun d => { d with reachable := d.reachable && !later.any (·.dismisses d) } := by
  induction later generalizing known with
  | nil => cases known <;> simp
  | cons c rest ih =>
    rw [List.foldl_cons, Inbound.effect_of_not_effective (h c List.mem_cons_self),
      ih fun c' hc' => h c' (List.mem_cons_of_mem c hc'), Option.map_map]
    refine Option.map_congr fun d _ => ?_
    have hsame : ∀ c' : Inbound,
        c'.dismisses { d with reachable := d.reachable && !c.dismisses d } = c'.dismisses d := by
      intro c'
      cases c' <;> rfl
    simp only [Function.comp_apply, hsame, List.any_cons, Bool.not_or, Bool.and_assoc]

/-! ## The last effective announcement -/

/-- The last effective announcement on a topic and the calls after it. -/
def LastAnnounced (calls : List Inbound) (topic : String) (payload : Payload)
    (later : List Inbound) : Prop :=
  (∃ earlier, calls = earlier ++ .announce topic payload :: later) ∧
    (payload = [] ∨ (Metadata.decode? payload).isSome) ∧
    ∀ c ∈ later, ¬ c.EffectiveOn topic

theorem none_or_lastAnnounced (calls : List Inbound) (topic : String) :
    (∀ c ∈ calls, ¬ c.EffectiveOn topic) ∨
      ∃ payload later, LastAnnounced calls topic payload later := by
  induction calls with
  | nil => exact Or.inl fun c hc => absurd hc (by simp)
  | cons c rest ih =>
    rcases ih with hnone | ⟨payload, later, ⟨earlier, hcalls⟩, hlast⟩
    · by_cases hc : c.EffectiveOn topic
      · cases c with
        | leave token => exact absurd hc id
        | announce t payload =>
          obtain ⟨rfl, hread⟩ := hc
          exact Or.inr ⟨payload, rest, ⟨[], rfl⟩, hread, hnone⟩
      · refine Or.inl fun c' hc' => ?_
        rcases List.mem_cons.mp hc' with rfl | hc'
        · exact hc
        · exact hnone c' hc'
    · exact Or.inr ⟨payload, later, ⟨c :: earlier, by rw [hcalls]; rfl⟩, hlast⟩

theorem find?_of_none_effective {calls : List Inbound} {topic : String}
    (h : ∀ c ∈ calls, ¬ c.EffectiveOn topic) :
    (calls.foldl apply {}).devices.find? topic = none := by
  rw [find?_foldl_apply]
  exact foldl_effect h none

theorem find?_of_deleted {calls later : List Inbound} {topic : String}
    (h : LastAnnounced calls topic [] later) :
    (calls.foldl apply {}).devices.find? topic = none := by
  obtain ⟨⟨earlier, hcalls⟩, -, hlater⟩ := h
  rw [find?_foldl_apply, hcalls, List.foldl_append, List.foldl_cons, Inbound.effect, if_pos rfl,
    if_pos (by rfl)]
  exact foldl_effect hlater none

theorem find?_of_announced {calls later : List Inbound} {topic : String} {payload : Payload}
    {m : Metadata} (h : LastAnnounced calls topic payload later) (hne : payload ≠ [])
    (hm : Metadata.decode? payload = some m) :
    (calls.foldl apply {}).devices.find? topic =
      some { ({ topic } : Device).withMetadata m with
        reachable := !later.any (·.dismisses (({ topic } : Device).withMetadata m)) } := by
  obtain ⟨⟨earlier, hcalls⟩, -, hlater⟩ := h
  have hd : Device.announced? topic payload = some _ :=
    Device.announced?_eq_some_iff.mpr ⟨m, hm, rfl⟩
  rw [find?_foldl_apply, hcalls, List.foldl_append, List.foldl_cons, Inbound.effect, if_pos rfl,
    if_neg (by simpa using hne), hd, Option.some_or, foldl_effect hlater, Option.map_some]
  -- a leave message asks for the topic and the last will, not for the flag
  have hsame : ∀ c : Inbound,
      c.dismisses { ({ topic } : Device).withMetadata m with reachable := true } =
        c.dismisses (({ topic } : Device).withMetadata m) := by
    intro c
    cases c <;> rfl
  simp only [hsame, Bool.true_and]

/-! ## The registry as a function of the history -/

/-- The device that a history leaves under a topic: the last effective payload
decoded for the topic, and unreachable if it left after that. -/
def Standing (calls : List Inbound) (topic : String) (d : Device) : Prop :=
  ∃ payload later m d₀, LastAnnounced calls topic payload later ∧ payload ≠ [] ∧
    Metadata.decode? payload = some m ∧ ({ topic } : Device).applyMetadata payload = .ok d₀ ∧
    d = { d₀ with reachable := d.reachable } ∧ d.topic = topic ∧
    (d.reachable = false ↔ ∃ token, Inbound.leave token ∈ later ∧
      (token = topic ∨ (token ≠ "" ∧ m.lastWill = some token)))

theorem any_dismisses_iff {topic : String} (hne : topic ≠ "") (later : List Inbound)
    (m : Metadata) :
    later.any (·.dismisses (({ topic } : Device).withMetadata m)) = true ↔
      ∃ token, Inbound.leave token ∈ later ∧
        (token = topic ∨ (token ≠ "" ∧ m.lastWill = some token)) := by
  rw [List.any_eq_true]
  constructor
  · rintro ⟨c, hc, hd⟩
    cases c with
    | announce t payload => simp [Inbound.dismisses] at hd
    | leave token => exact ⟨token, hc, (Device.leavesWith_withMetadata hne m token).mp hd⟩
  · rintro ⟨token, hc, hd⟩
    exact ⟨.leave token, hc, (Device.leavesWith_withMetadata hne m token).mpr hd⟩

theorem standing_of_announced {calls later : List Inbound} {topic : String} {payload : Payload}
    {m : Metadata} (htopic : topic ≠ "") (h : LastAnnounced calls topic payload later)
    (hne : payload ≠ []) (hm : Metadata.decode? payload = some m) :
    Standing calls topic { ({ topic } : Device).withMetadata m with
      reachable := !later.any (·.dismisses (({ topic } : Device).withMetadata m)) } := by
  refine ⟨payload, later, m, ({ topic } : Device).withMetadata m, h, hne, hm,
    Device.applyMetadata_eq_ok_iff.mpr ⟨m, hm, rfl⟩, rfl, ?_, ?_⟩
  · show (({ topic } : Device).withMetadata m).topic = topic
    rw [Device.withMetadata_topic, if_neg]
    simpa using htopic
  · rw [← any_dismisses_iff htopic]
    simp

theorem find?_eq_some_iff_standing {calls : List Inbound} {topic : String} (htopic : topic ≠ "")
    {d : Device} :
    (calls.foldl apply {}).devices.find? topic = some d ↔ Standing calls topic d := by
  constructor
  · intro hfind
    rcases none_or_lastAnnounced calls topic with hnone | ⟨payload, later, hlast⟩
    · rw [find?_of_none_effective hnone] at hfind
      exact absurd hfind (by simp)
    · by_cases hp : payload = []
      · subst hp
        rw [find?_of_deleted hlast] at hfind
        exact absurd hfind (by simp)
      · obtain ⟨m, hm⟩ := Option.isSome_iff_exists.mp (hlast.2.1.resolve_left hp)
        rw [find?_of_announced hlast hp hm] at hfind
        rw [← Option.some.inj hfind]
        exact standing_of_announced htopic hlast hp hm
  · rintro ⟨payload, later, m, d₀, hlast, hp, hm, happly, hd, -, hleft⟩
    obtain ⟨m', hm', rfl⟩ := Device.applyMetadata_eq_ok_iff.mp happly
    obtain rfl : m = m' := Option.some.inj (hm.symm.trans hm')
    rw [find?_of_announced hlast hp hm]
    rw [← any_dismisses_iff htopic] at hleft
    have hreach : (!later.any (·.dismisses (({ topic } : Device).withMetadata m)))
        = d.reachable := by
      cases hr : d.reachable <;> simp [hr] at hleft ⊢ <;> exact hleft
    rw [hreach, ← hd]

theorem find?_eq_none_iff_history {calls : List Inbound} {topic : String} :
    (calls.foldl apply {}).devices.find? topic = none ↔
      (∀ c ∈ calls, ¬ c.EffectiveOn topic) ∨ ∃ later, LastAnnounced calls topic [] later := by
  constructor
  · intro hfind
    rcases none_or_lastAnnounced calls topic with hnone | ⟨payload, later, hlast⟩
    · exact Or.inl hnone
    · by_cases hp : payload = []
      · subst hp
        exact Or.inr ⟨later, hlast⟩
      · obtain ⟨m, hm⟩ := Option.isSome_iff_exists.mp (hlast.2.1.resolve_left hp)
        rw [find?_of_announced hlast hp hm] at hfind
        exact absurd hfind (by simp)
  · rintro (hnone | ⟨later, hlast⟩)
    · exact find?_of_none_effective hnone
    · exact find?_of_deleted hlast

theorem get_eq_ok_iff {r : Registry} {topic : String} {d : Device} :
    r.get topic = .ok d ↔ r.devices.find? topic = some d := by
  rw [get]
  cases r.devices.find? topic <;> simp

theorem get_eq_notFound_iff {r : Registry} {topic : String} :
    r.get topic = .error (.notFound topic) ↔ r.devices.find? topic = none := by
  rw [get]
  cases r.devices.find? topic <;> simp

/-- With all topics named, nothing is known that the history does not leave
standing. -/
theorem mem_devices_iff_standing {calls : List Inbound}
    (hnamed : ∀ topic payload, Inbound.announce topic payload ∈ calls → topic ≠ "")
    {topic : String} {d : Device} :
    (topic, d) ∈ (calls.foldl apply {}).devices.toList ↔ Standing calls topic d := by
  rw [← SortedMap.find?_eq_some_iff]
  by_cases htopic : topic = ""
  · have hnone : ∀ c ∈ calls, ¬ c.EffectiveOn topic := by
      intro c hc heff
      cases c with
      | leave token => exact heff
      | announce t payload => exact hnamed t payload hc (heff.1.trans htopic)
    rw [find?_of_none_effective hnone]
    refine ⟨fun h => absurd h (by simp), ?_⟩
    rintro ⟨payload, later, m, d₀, ⟨⟨earlier, hcalls⟩, -⟩, -⟩
    refine absurd htopic (hnamed topic payload ?_)
    rw [hcalls]
    exact List.mem_append_right _ List.mem_cons_self
  · exact find?_eq_some_iff_standing htopic

theorem size_eq_ncard_standing {calls : List Inbound}
    (hnamed : ∀ topic payload, Inbound.announce topic payload ∈ calls → topic ≠ "") :
    (calls.foldl apply {}).size = {topic | ∃ d, Standing calls topic d}.ncard := by
  have hset : {topic | ∃ d, Standing calls topic d} =
      ↑(calls.foldl apply {}).devices.keys.toFinset := by
    ext topic
    rw [Set.mem_ofPred_eq, Finset.mem_coe, List.mem_toFinset, SortedMap.mem_keys_iff,
      Option.isSome_iff_exists]
    simp only [SortedMap.find?_eq_some_iff, mem_devices_iff_standing hnamed]
  rw [hset, Set.ncard_coe_finset, List.toFinset_card_of_nodup (SortedMap.nodup_keys _), size,
    SortedMap.size, SortedMap.keys, List.length_map]

/-- A registry is what the history of its calls makes of it. -/
theorem registry_of_history (calls : List Inbound) :
    (∀ topic, topic ≠ "" →
      ((calls.foldl apply {}).get topic = .error (.notFound topic) ↔
        (∀ c ∈ calls, ¬ c.EffectiveOn topic) ∨ ∃ later, LastAnnounced calls topic [] later) ∧
      ∀ d, (calls.foldl apply {}).get topic = .ok d ↔ Standing calls topic d) ∧
    ((∀ topic payload, Inbound.announce topic payload ∈ calls → topic ≠ "") →
      (calls.foldl apply {}).size = {topic | ∃ d, Standing calls topic d}.ncard ∧
      ∀ topic d, (topic, d) ∈ (calls.foldl apply {}).devices.toList ↔ Standing calls topic d) := by
  refine ⟨fun topic htopic => ⟨?_, fun d => ?_⟩, fun hnamed => ⟨?_, fun topic d => ?_⟩⟩
  · rw [get_eq_notFound_iff]
    exact find?_eq_none_iff_history
  · rw [get_eq_ok_iff]
    exact find?_eq_some_iff_standing htopic
  · exact size_eq_ncard_standing hnamed
  · exact mem_devices_iff_standing hnamed

/-- A lamp that is announced, announced again in a form that cannot be read, and
gone by its last will, next to a fan that was deleted. -/
def lampHistory : List Inbound :=
  [.announce "attic/fan" (Utf8.encode "\x7b\x7d"), .announce "attic/fan" [],
    .announce "hall/lamp" (Utf8.encode "\x7b\"topic\":\"attic/fan\",\"lastWillID\":\"w\"\x7d"),
    .announce "hall/lamp" (Utf8.encode "["), .leave "w"]

theorem registry_of_history_lamp :
    ("hall/lamp" ≠ "" ∧ ∀ topic payload, Inbound.announce topic payload ∈ lampHistory → topic ≠ "") ∧
    (∃ d, (lampHistory.foldl apply {}).get "hall/lamp" = .ok d ∧ d.reachable = false ∧
      Standing lampHistory "hall/lamp" d) ∧
    {topic | ∃ d, Standing lampHistory topic d}.ncard = 1 := by
  have hnamed : ∀ topic payload, Inbound.announce topic payload ∈ lampHistory → topic ≠ "" := by
    intro topic payload h heq
    subst heq
    simp [lampHistory] at h
  obtain ⟨hget, hall⟩ := registry_of_history lampHistory
  refine ⟨⟨by decide, hnamed⟩, ?_, ?_⟩
  · have hleft : ((lampHistory.foldl apply {}).get "hall/lamp").toOption.any
        (fun d => !d.reachable) = true := by decide +kernel
    cases hd : (lampHistory.foldl apply {}).get "hall/lamp" with
    | error e => simp [hd, Except.toOption] at hleft
    | ok d =>
      refine ⟨d, rfl, ?_, ((hget "hall/lamp" (by decide)).2 d).mp hd⟩
      simpa [hd, Except.toOption] using hleft
  · rw [← (hall hnamed).1]
    decide +kernel

end Registry
end HomeSync
