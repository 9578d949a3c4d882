import HomeSync.Proofs.Adapter.Display
import HomeSync.Proofs.House.Moves

/-
The bridge shows the installed accessories at any time.

Messages, writes and routers change values and subscriptions, but they ask
nothing of the bridge.  So what the bridge shows only depends on the devices that
the adapter is told of.  Their topics must have different ids; devices that share
one would push each other off the bridge.
-/
namespace HomeSync
namespace House

/-- The moves of a house where the adapter is only told of devices with the given
topics. -/
def Among (topics : List String) (h : House) (m : Move) : Prop :=
  ∀ e, h.told m = some e → e.device.topic ∈ topics

theorem among_tell (topics : List String) (h : House) (e : Event) :
    h.Among topics (.tell e) ↔ e.device.topic ∈ topics := by
  constructor
  · exact fun hm => hm e rfl
  · intro htopic e' he'
    obtain rfl : e = e' := Option.some.inj he'
    exact htopic

/-- The bridge shows what is installed, and it has the root that it started
with. -/
structure Showing (topics : List String) (root : Accessory) (h : House) : Prop where
  sound : h.hub.Sound
  displays : h.hub.Displays topics
  balanced : h.hub.bridge.Balanced
  root : h.hub.bridge.root = root

variable {topics : List String} {root : Accessory}

theorem asked_step {h : House} (hdistinct : Identity.Distinct topics) (hs : h.Showing topics root)
    {m : Move} (hm : h.Among topics m) : h.hub.bridge.Asked (h.step m).hub.bridge := by
  refine hub_step_keeps (P := fun h' => h.hub.bridge.Asked h'.bridge) hs.sound ?_ ?_
  · intro h' _ _ hbridge
    rw [hbridge]
    exact .nothing
  · exact fun e h' he ht => Hub.asked_of_takes hs.sound hdistinct hs.displays (hm e he) ht

theorem displays_step {h : House} (hdistinct : Identity.Distinct topics)
    (hs : h.Showing topics root) {m : Move} (hm : h.Among topics m) :
    (h.step m).hub.Displays topics :=
  hub_step_keeps hs.sound (fun _ => Hub.displays_of_faces hs.displays)
    fun e _ he ht => Hub.displays_of_takes hs.sound hdistinct hs.displays (hm e he) ht

theorem showing_step {h : House} (hdistinct : Identity.Distinct topics)
    (hs : h.Showing topics root) {m : Move} (hm : h.Among topics m) :
    (h.step m).Showing topics root := by
  have hasked := asked_step hdistinct hs hm
  exact ⟨sound_step hs.sound m, displays_step hdistinct hs hm,
    Bridge.balanced_of_asked hs.balanced hasked, (Bridge.root_of_asked hasked).trans hs.root⟩

theorem showing_create (recording : Bool) (info : Nameplate) :
    (House.create recording info).Showing topics (Bridge.create info).root := by
  refine ⟨sound_create recording info, ⟨?_, ?_, ?_, ?_⟩, rfl, rfl⟩
  · intro topic i hfind
    exact absurd hfind (by simp [House.create])
  · intro topic i hfind
    exact absurd hfind (by simp [House.create])
  · intro topic i hfind
    exact absurd hfind (by simp [House.create])
  · intro id hid
    exact absurd hid (by simp [House.create, Bridge.create, Bridge.find?])

/-- The bridge shows each installed accessory under the id of its topic, and
nothing else.  It is the accessory that the adapter gives out for the topic.  Along
the way nothing is added under an id that is shown, only what is shown is replaced
or removed, and the root accessory stays out of it. -/
theorem bridge_shows_installed (recording : Bool) (info : Nameplate)
    (hdistinct : Identity.Distinct topics) {moves : List Move}
    (hallowed : Allowed (Among topics) (House.create recording info) moves) :
    let h := (House.create recording info).run moves
    h.hub.bridge.ids.Perm (h.hub.installed.keys.map Identity.topicId) ∧
    (∀ topic i, h.hub.installed.find? topic = some i →
      h.hub.bridge.find? (Identity.topicId topic) = some i.accessory ∧
      ∃ a, h.hub.inventory.get? i.accessory = some a ∧ h.hub.accessory? topic = some a ∧
        a.id = Identity.topicId topic) ∧
    (h.hub.bridge.adds = h.hub.bridge.removes + h.hub.bridge.shown.size ∧
      h.hub.bridge.shown.size = h.hub.installed.size) ∧
    (Bridge.rootId ∉ h.hub.bridge.ids ∧ h.hub.bridge.root = (Bridge.create info).root) ∧
    ∀ before m after, moves = before ++ m :: after →
      ((House.create recording info).run before).hub.bridge.Asked
        ((House.create recording info).run (before ++ [m])).hub.bridge := by
  intro h
  have hshowing : ∀ moves, Allowed (Among topics) (House.create recording info) moves →
      ((House.create recording info).run moves).Showing topics (Bridge.create info).root :=
    fun moves => run_induct (P := Showing topics (Bridge.create info).root)
      (fun _ _ hs hm => showing_step hdistinct hs hm) (showing_create recording info)
  have hs : h.Showing topics (Bridge.create info).root := hshowing moves hallowed
  have hids := Hub.ids_perm hdistinct hs.displays
  refine ⟨hids, fun topic i hi => ⟨hs.displays.shown topic i hi, ?_⟩, ⟨hs.balanced, ?_⟩,
    ⟨?_, hs.root⟩, ?_⟩
  · obtain ⟨f, hf, hid⟩ := hs.displays.named topic i hi
    obtain ⟨a, ha, rfl⟩ := Inventory.get?_of_faces_getElem? hf
    have haccessory : h.hub.accessory? topic = some a := by
      rw [Hub.accessory?, hi]
      exact ha
    exact ⟨a, ha, haccessory, hid⟩
  · have hlength := hids.length_eq
    rw [List.length_map] at hlength
    have hshown : h.hub.bridge.ids.length = h.hub.bridge.shown.size := List.length_map _
    have hinstalled : h.hub.installed.keys.length = h.hub.installed.size := List.length_map _
    omega
  · intro hroot
    obtain ⟨topic, -, hid⟩ := List.mem_map.mp (hids.mem_iff.mp hroot)
    exact Identity.topicId_ne_rootId topic hid
  · rintro before m after rfl
    obtain ⟨hbefore, hm, -⟩ := allowed_append.mp hallowed
    have hlast : (House.create recording info).run (before ++ [m]) =
        ((House.create recording info).run before).step m := List.foldl_concat ..
    rw [hlast]
    exact asked_step hdistinct (hshowing before hbefore) hm

/-- A device that can only be switched on and off. -/
def switchable (topic name : String) : Device :=
  { ({ topic } : Device).addFeature "on" {} with name, deviceType := "outlet" }

/-- One device is renamed, the other one goes and comes back. -/
def changingMoves : List Move :=
  [.tell (.updated (switchable "hall/lamp" "Lamp")),
    .tell (.updated (switchable "attic/fan" "Fan")),
    .tell (.updated (switchable "hall/lamp" "Hall lamp")),
    .tell (.removed (switchable "attic/fan" "Fan")),
    .tell (.updated (switchable "attic/fan" "Fan"))]

theorem bridge_shows_installed_changing :
    Identity.Distinct ["hall/lamp", "attic/fan"] ∧
    Allowed (Among ["hall/lamp", "attic/fan"]) (House.create false {}) changingMoves ∧
    Bridge.rootId ∉ ((House.create false {}).run changingMoves).hub.bridge.ids ∧
    ((House.create false {}).run changingMoves).hub.bridge.find?
      (Identity.topicId "attic/fan") = some 3 := by
  have hdistinct : Identity.Distinct ["hall/lamp", "attic/fan"] := by decide +kernel
  have hallowed : Allowed (Among ["hall/lamp", "attic/fan"]) (House.create false {})
      changingMoves := by
    simp [changingMoves, Allowed, among_tell, switchable, Event.device, Device.addFeature]
  obtain ⟨-, hshown, -, ⟨hroot, -⟩, -⟩ := bridge_shows_installed false {} hdistinct hallowed
  have hinstalled : (((House.create false {}).run changingMoves).hub.installed.find?
      "attic/fan").map (·.accessory) = some 3 := by decide +kernel
  obtain ⟨i, hi, hnumber⟩ := Option.map_eq_some_iff.mp hinstalled
  refine ⟨hdistinct, hallowed, hroot, ?_⟩
  rw [(hshown "attic/fan" i hi).1, hnumber]

end House
end HomeSync
