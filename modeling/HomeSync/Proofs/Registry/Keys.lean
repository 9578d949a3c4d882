import HomeSync.Proofs.House.Writes
import HomeSync.Proofs.Registry.Replay

/-
The keys of a registry and the topics of its devices.

A device is kept under the topic of its announcement, whatever topic its payload
names, and its features belong to it.  The empty topic is the exception: a device
that is announced without a topic takes the one in its payload, so it may be known
by the topic of another entry.
-/
namespace HomeSync

namespace Device

/-- The topic of a device that is announced under a key. -/
def topicUnder (key : String) (m : Metadata) : String := if key = "" then m.topic else key

theorem topicUnder_of_ne {key : String} (h : key ≠ "") (m : Metadata) : topicUnder key m = key :=
  if_neg h

theorem withMetadata_topicUnder (key : String) (m : Metadata) :
    (({ topic := key } : Device).withMetadata m).topic = topicUnder key m := by
  rw [withMetadata_topic, topicUnder]
  simp only [String.isEmpty_iff]

/-- The features of a fitted device belong to it. -/
theorem owner_of_fitted {d : Device} (h : d.Fitted) {name : String} {f : Feature}
    (hf : d.features.find? name = some f) : f.owner = some d.topic := by
  rw [← h name f hf]
  rfl

theorem afterLeave_eq (d : Device) (token : String) :
    d.afterLeave token = { d with reachable := (d.afterLeave token).reachable } := by
  rw [afterLeave]
  split <;> rfl

end Device

theorem Metadata.decode?_nil : Metadata.decode? [] = none := by decide +kernel

namespace Registry

/-- What is known under a key after a call was announced under it by that call, or it
was known before and at most its presence has changed. -/
theorem known_before_or_announced {r : Registry} {c : Call} {key : String} {d : Device}
    (h : (r.call c).devices.find? key = some d) :
    (∃ payload, c = .announce key payload ∧ Device.announced? key payload = some d) ∨
      ∃ d₀, r.devices.find? key = some d₀ ∧ d = { d₀ with reachable := d.reachable } := by
  rw [devices_call] at h
  cases c with
  | leave token listing =>
    obtain ⟨d₀, hd₀, rfl⟩ := Option.map_eq_some_iff.mp h
    exact Or.inr ⟨d₀, hd₀, d₀.afterLeave_eq token⟩
  | announce t payload =>
    simp only [Inbound.effect] at h
    by_cases ht : t = key
    · subst ht
      rw [if_pos rfl] at h
      by_cases hp : payload.isEmpty = true
      · rw [if_pos hp] at h
        exact absurd h (by simp)
      · rw [if_neg hp, Option.or_eq_some_iff] at h
        rcases h with hnew | ⟨-, hold⟩
        · exact Or.inl ⟨payload, rfl, hnew⟩
        · exact Or.inr ⟨d, hold, rfl⟩
    · rw [if_neg ht] at h
      exact Or.inr ⟨d, h, rfl⟩

/-- Whatever is known under a key goes back to an announcement under that key. -/
theorem announced_of_find? {calls : List Call} {key : String} {d : Device}
    (h : (calls.foldl call {}).devices.find? key = some d) :
    ∃ payload m, Call.announce key payload ∈ calls ∧ Metadata.decode? payload = some m ∧
      d.topic = Device.topicUnder key m ∧ d.Fitted := by
  -- the last call is the one whose effect on the key is known
  induction calls using List.reverseRecOn generalizing d with
  | nil => simp at h
  | append_singleton calls c ih =>
    rw [List.foldl_append, List.foldl_cons, List.foldl_nil] at h
    rcases known_before_or_announced h with ⟨payload, rfl, hnew⟩ | ⟨d₀, hd₀, hd⟩
    · have hfitted := Device.fitted_of_announced? hnew
      obtain ⟨m, hm, rfl⟩ := Device.announced?_eq_some_iff.mp hnew
      exact ⟨payload, m, List.mem_append_right _ List.mem_cons_self, hm,
        Device.withMetadata_topicUnder key m, hfitted⟩
    · obtain ⟨payload, m, hmem, hm, htopic, hfitted⟩ := ih hd₀
      refine ⟨payload, m, List.mem_append_left _ hmem, hm, ?_, ?_⟩
      · rw [hd]
        exact htopic
      · rw [hd]
        exact Device.fitted_of_reachable hfitted d.reachable

/-- An announcement that can be read is what the registry then knows. -/
theorem get_add (r : Registry) (key : String) {payload : Payload} {m : Metadata}
    (hm : Metadata.decode? payload = some m) :
    (r.add key payload).get key =
      .ok { ({ topic := key } : Device).withMetadata m with reachable := true } := by
  have hp : payload.isEmpty ≠ true := by
    rw [Ne, List.isEmpty_iff]
    rintro rfl
    exact absurd hm (by simp [Metadata.decode?_nil])
  have hd : Device.announced? key payload = some _ := Device.announced?_eq_some_iff.mpr ⟨m, hm, rfl⟩
  rw [get_eq_ok_iff, find?_add, Inbound.effect, if_pos rfl, if_neg hp, hd, Option.some_or]

/-- The key of an entry is the topic of its device, and its features belong to that
topic, unless the key is empty: a device that is announced without a topic has the one
of its payload.  So only such a device can share its topic with another entry. -/
theorem topic_of_key (calls : List Call) :
    (∀ key d, (calls.foldl call {}).devices.find? key = some d →
      (∃ payload m, Call.announce key payload ∈ calls ∧ Metadata.decode? payload = some m ∧
        d.topic = Device.topicUnder key m) ∧
      ∀ name f, d.features.find? name = some f → f.owner = some d.topic) ∧
    (∀ key payload m, Metadata.decode? payload = some m →
      ∃ d, ((calls.foldl call {}).add key payload).get key = .ok d ∧
        d.topic = Device.topicUnder key m) ∧
    ∀ key key' d d', (calls.foldl call {}).devices.find? key = some d →
      (calls.foldl call {}).devices.find? key' = some d' → d.topic = d'.topic →
      key = key' ∨ key = "" ∨ key' = "" := by
  refine ⟨fun key d hd => ?_, fun key payload m hm => ?_, fun key key' d d' hd hd' htopic => ?_⟩
  · obtain ⟨payload, m, hmem, hm, htopic, hfitted⟩ := announced_of_find? hd
    exact ⟨⟨payload, m, hmem, hm, htopic⟩, fun name f hf => Device.owner_of_fitted hfitted hf⟩
  · exact ⟨_, get_add (calls.foldl call {}) key hm, Device.withMetadata_topicUnder key m⟩
  · obtain ⟨-, m, -, -, hkey, -⟩ := announced_of_find? hd
    obtain ⟨-, m', -, -, hkey', -⟩ := announced_of_find? hd'
    by_cases hnamed : key = "" ∨ key' = ""
    · exact Or.inr hnamed
    · obtain ⟨hne, hne'⟩ := not_or.mp hnamed
      rw [Device.topicUnder_of_ne hne] at hkey
      rw [Device.topicUnder_of_ne hne'] at hkey'
      exact Or.inl (hkey.symm.trans (htopic.trans hkey'))

/-- A lamp that is announced without a topic, and another one under the topic that the
payload of the first one names. -/
def namelessCalls : List Call :=
  [.announce "" (Utf8.encode "\x7b\"topic\":\"hall/lamp\"\x7d"),
    .announce "hall/lamp" (Utf8.encode "\x7b\"name\":\"Lamp\"\x7d")]

/-- The device under the empty key is not known by it, and it shares its topic. -/
theorem topic_of_empty_key :
    ∃ d d', (namelessCalls.foldl call {}).devices.find? "" = some d ∧
      (namelessCalls.foldl call {}).devices.find? "hall/lamp" = some d' ∧
      d.topic = "hall/lamp" ∧ d'.topic = "hall/lamp" := by
  have htopics : (namelessCalls.foldl call {}).devices.toList.map (fun e => (e.1, e.2.topic)) =
      [("", "hall/lamp"), ("hall/lamp", "hall/lamp")] := by decide +kernel
  have hfind : ∀ key topic, (key, topic) ∈ [("", "hall/lamp"), ("hall/lamp", "hall/lamp")] →
      ∃ d, (namelessCalls.foldl call {}).devices.find? key = some d ∧ d.topic = topic := by
    intro key topic hmem
    rw [← htopics] at hmem
    obtain ⟨⟨key', d⟩, hd, he⟩ := List.mem_map.mp hmem
    obtain ⟨rfl, rfl⟩ := Prod.mk.inj he
    exact ⟨d, SortedMap.find?_eq_some_iff.mpr hd, rfl⟩
  obtain ⟨d, hd, htopic⟩ := hfind "" "hall/lamp" (by simp)
  obtain ⟨d', hd', htopic'⟩ := hfind "hall/lamp" "hall/lamp" (by simp)
  exact ⟨d, d', hd, hd', htopic, htopic'⟩

end Registry
end HomeSync
