import HomeSync.Proofs.House.Moves
import HomeSync.Proofs.Registry.Stream

/-
The bridge shows the devices of the registry.

The adapter hears of the devices by events, and some of them still wait.  The
invariant is that recording what waits, on top of the devices that the adapter
shows, gives the devices of the registry.  A call adds the same to both sides,
and taking an event moves it from one side to the other.  Once nothing waits, the
adapter shows the registry.
-/
namespace HomeSync
namespace House

/-- The moves of a house where the adapter is added once and hears of devices
from the registry alone. -/
def Fed (h : House) : Move → Prop
  | .call c => c.Named
  | .follow _ => h.adapterStream = none
  | .tell _ => False
  | _ => True

/-- What the adapter shows and what waits for it give the devices of the
registry. -/
structure Following (h : House) : Prop where
  sound : h.hub.Sound
  keyed : Registry.Keyed h.registry.devices
  numbered : h.registry.Numbered
  bare : h.adapterStream = none → h.hub.installed = SortedMap.empty
  behind : ∀ id, h.adapterStream = some id → ∃ queue told, h.registry.Follows id queue ∧
    queue.foldl Event.record told = h.registry.devices ∧ h.hub.Shows told

theorem following_of_untouched {h h' : House} (hf : h.Following) (hsame : Untouched h h')
    (hsound : h'.hub.Sound) : h'.Following := by
  refine ⟨hsound, ?_, ?_, ?_, ?_⟩
  · rw [hsame.registry]
    exact hf.keyed
  · rw [hsame.registry]
    exact hf.numbered
  · rw [hsame.adapterStream, hsame.installed]
    exact hf.bare
  · rw [hsame.adapterStream, hsame.registry]
    intro id hid
    obtain ⟨queue, told, hfollows, hdevices, hshows⟩ := hf.behind id hid
    exact ⟨queue, told, hfollows, hdevices,
      Hub.shows_of_faces hshows hsame.installed hsame.faces⟩

theorem following_call {h : House} (hf : h.Following) {c : Call} (hnamed : c.Named) :
    (h.step (.call c)).Following := by
  refine ⟨hf.sound, Registry.keyed_call hf.keyed hnamed, Registry.numbered_call hf.numbered c,
    hf.bare, fun id hid => ?_⟩
  obtain ⟨queue, told, hfollows, hdevices, hshows⟩ := hf.behind id hid
  refine ⟨queue ++ c.events h.registry.devices, told, Registry.follows_call hfollows c, ?_, hshows⟩
  show _ = (h.registry.call c).devices
  rw [List.foldl_append, hdevices, Registry.devices_call_eq_foldl_record hf.keyed hnamed]

/-- What the adapter is told when it is added are the devices of that moment. -/
theorem following_follow {h : House} (hf : h.Following) (hnone : h.adapterStream = none)
    (listing : Listing) : (h.step (.follow listing)).Following := by
  have hbare := hf.bare hnone
  refine ⟨hf.sound, hf.keyed, Registry.numbered_subscribe hf.numbered listing, fun _ => hbare,
    fun id hid => ?_⟩
  obtain rfl : h.registry.nextStream = id := Option.some.inj hid
  refine ⟨_, SortedMap.empty, Registry.follows_subscribe hf.numbered listing,
    Registry.foldl_record_replay hf.keyed (listing.perm _), ?_⟩
  show h.hub.Shows _
  constructor
  · intro topic
    rw [hbare]
    rfl
  · intro topic i d hi
    rw [hbare] at hi
    exact absurd hi (by simp)

theorem following_handle {h : House} (hf : h.Following) : (h.step .handle).Following := by
  show h.handleNext.Following
  rw [handleNext]
  cases hid : h.adapterStream with
  | none => exact hf
  | some id =>
    obtain ⟨queue, told, hfollows, hdevices, hshows⟩ := hf.behind id hid
    dsimp only
    rw [Registry.pending_of_follows hfollows]
    cases queue with
    | nil => exact hf
    | cons e rest =>
      -- the event goes over from what waits to what the adapter was told
      have ht := Hub.takes_handle h.hub e
      dsimp only
      refine ⟨Hub.sound_of_takes hf.sound ht, hf.keyed, Registry.numbered_skip hf.numbered id 1,
        fun hnone => absurd hnone (by simp), fun id' hid' => ?_⟩
      obtain rfl : id = id' := Option.some.inj hid'
      exact ⟨rest, e.record told, Registry.follows_skip hfollows 1, hdevices,
        Hub.shows_of_takes hf.sound ht hshows⟩

theorem following_step {h : House} (hf : h.Following) {m : Move} (hm : h.Fed m) :
    (h.step m).Following := by
  have houtside : m.Outside → (h.step m).Following := fun ho =>
    following_of_untouched hf (untouched_step hf.sound ho).1 (untouched_step hf.sound ho).2
  cases m with
  | call c => exact following_call hf hm
  | follow listing => exact following_follow hf hm listing
  | handle => exact following_handle hf
  | tell e => exact hm.elim
  | operate op => exact houtside trivial
  | write accessory characteristic v => exact houtside trivial
  | start config => exact houtside trivial

theorem following_create (recording : Bool) (info : Nameplate) :
    (House.create recording info).Following := by
  refine ⟨sound_create recording info, ?_, ?_, fun _ => rfl, ?_⟩
  · intro topic d hfind
    exact absurd hfind (by simp [House.create])
  · intro s hs
    exact absurd hs (by simp [House.create])
  · intro id hid
    exact absurd hid (by simp [House.create])

/-- When the adapter is added and no event waits for it, there is an accessory
for every device of the registry and for nothing else, and each presents its
device as it is now. -/
theorem installed_mirror_registry (recording : Bool) (info : Nameplate) {moves : List Move}
    (hallowed : Allowed Fed (House.create recording info) moves) {id : Nat}
    (hadded : ((House.create recording info).run moves).adapterStream = some id)
    (htaken : ((House.create recording info).run moves).registry.pending id = []) :
    let h := (House.create recording info).run moves
    h.hub.installed.keys = h.registry.devices.keys ∧
    ∀ topic d, h.registry.devices.find? topic = some d →
      ∃ i, h.hub.installed.find? topic = some i ∧ h.hub.Presents i d := by
  intro h
  have hf : h.Following :=
    run_induct (P := Following) (fun _ _ hf hm => following_step hf hm)
      (following_create recording info) hallowed
  obtain ⟨queue, told, hfollows, hdevices, hshows⟩ := hf.behind id hadded
  have hqueue : queue = [] := (Registry.pending_of_follows hfollows).symm.trans htaken
  obtain rfl : told = h.registry.devices := by
    rw [hqueue] at hdevices
    exact hdevices
  refine ⟨SortedMap.keys_eq_of_find? hshows.alike, fun topic d hd => ?_⟩
  have hsome : (h.hub.installed.find? topic).isSome := by
    rw [hshows.alike, hd]
    rfl
  obtain ⟨i, hi⟩ := Option.isSome_iff_exists.mp hsome
  exact ⟨i, hi, hshows.presents topic i d hi hd⟩

/-- A lamp is announced, the adapter is added, and then the lamp leaves. -/
def lampMoves : List Move :=
  [.call (.announce "hall/lamp"
      (Utf8.encode "\x7b\"type\":\"lightbulb\",\"feature\":\x7b\"on\":\x7b\x7d\x7d\x7d")),
    .follow .byTopic, .handle, .call (.leave "hall/lamp" .byTopic), .handle]

theorem installed_mirror_registry_lamp :
    Allowed Fed (House.create false {}) lampMoves ∧
    ((House.create false {}).run lampMoves).adapterStream = some 0 ∧
    ((House.create false {}).run lampMoves).registry.pending 0 = [] ∧
    ((House.create false {}).run lampMoves).hub.installed.keys = ["hall/lamp"] := by
  have hallowed : Allowed Fed (House.create false {}) lampMoves :=
    ⟨by simp [Fed, Call.Named], rfl, trivial, trivial, trivial, trivial⟩
  have hadded : ((House.create false {}).run lampMoves).adapterStream = some 0 := by
    decide +kernel
  have htaken : ((House.create false {}).run lampMoves).registry.pending 0 = [] := by
    decide +kernel
  refine ⟨hallowed, hadded, htaken, ?_⟩
  rw [(installed_mirror_registry false {} hallowed hadded htaken).1]
  decide +kernel

end House
end HomeSync
