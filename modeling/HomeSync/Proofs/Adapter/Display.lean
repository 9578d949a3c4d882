import HomeSync.Proofs.Adapter.Mirror

/-
The bridge shows the installed accessories.

Adapter and bridge keep two maps of the same accessories, one by device topic and
one by accessory id, and every change touches them in separate steps.  As long as
no two devices share an id, the maps stay in step: an accessory is added under an
id that is free, and replaced or removed under an id that is not.  Ids of topics
carry a tag, so the root accessory is never among them.
-/
namespace HomeSync

namespace Identity

theorem le_foldl_bytes (bytes : List UInt8) (n : Nat) :
    n ≤ bytes.foldl (fun n b => n * 256 + b.toNat) n := by
  induction bytes generalizing n with
  | nil => exact Nat.le_refl n
  | cons b rest ih =>
    have hfirst : n ≤ n * 256 + b.toNat := by omega
    exact Nat.le_trans hfirst (ih _)

/-- The tag of a topic id lies above the id of the root accessory. -/
theorem topicId_ne_rootId (topic : String) : topicId topic ≠ Bridge.rootId := by
  have htag : 15 ≤ topicId topic := by
    rw [topicId, ofBytes, List.foldl_cons]
    exact le_foldl_bytes _ (0 * 256 + topicTag.toNat)
  have hroot : Bridge.rootId = 1 := rfl
  omega

/-- No two of the topics share an id. -/
def Distinct (topics : List String) : Prop :=
  ∀ topic ∈ topics, ∀ topic' ∈ topics, topicId topic = topicId topic' → topic = topic'

instance (topics : List String) : Decidable (Distinct topics) :=
  inferInstanceAs (Decidable (∀ topic ∈ topics, ∀ topic' ∈ topics,
    topicId topic = topicId topic' → topic = topic'))

end Identity

/-! ## Requests to the bridge -/

namespace Bridge

/-- At most one request to a bridge.  What is added was not shown before, and
what is replaced or removed was. -/
inductive Asked (b : Bridge) : Bridge → Prop
  | nothing : Asked b b
  | add {id : Nat} (n : Nat) : b.find? id = none → Asked b (b.add id n)
  | replace {id : Nat} (n : Nat) : (b.find? id).isSome → Asked b (b.replace id n)
  | remove {id : Nat} : (b.find? id).isSome → Asked b (b.remove id)

/-- Everything that was added and not removed is shown. -/
def Balanced (b : Bridge) : Prop := b.adds = b.removes + b.shown.size

theorem balanced_of_asked {b b' : Bridge} (hb : b.Balanced) (h : b.Asked b') : b'.Balanced := by
  cases h with
  | nothing => exact hb
  | @add id n hfree =>
    have hsize : (b.shown.insert id n).size = b.shown.size + 1 := by
      rw [SortedMap.size_insert, SortedMap.erase_of_find?_none hfree]
    show b.adds + 1 = b.removes + (b.shown.insert id n).size
    rw [hsize, ← Nat.add_assoc, ← hb]
  | @replace id n hshown =>
    obtain ⟨old, hold⟩ := Option.isSome_iff_exists.mp hshown
    have hsize : (b.shown.insert id n).size = b.shown.size := by
      rw [SortedMap.size_insert, SortedMap.size_erase hold]
    show b.adds = b.removes + (b.shown.insert id n).size
    rw [hsize, ← hb]
  | @remove id hshown =>
    obtain ⟨old, hold⟩ := Option.isSome_iff_exists.mp hshown
    have hsize := SortedMap.size_erase hold
    have hbalanced : b.adds = b.removes + b.shown.size := hb
    show b.adds = b.removes + 1 + (b.shown.erase id).size
    omega

theorem root_of_asked {b b' : Bridge} (h : b.Asked b') : b'.root = b.root := by
  cases h <;> rfl

theorem find?_add (b : Bridge) (id n id' : Nat) :
    (b.add id n).find? id' = if id = id' then some n else b.find? id' :=
  SortedMap.find?_insert ..

theorem find?_replace (b : Bridge) (id n id' : Nat) :
    (b.replace id n).find? id' = if id = id' then some n else b.find? id' :=
  SortedMap.find?_insert ..

theorem find?_remove (b : Bridge) (id id' : Nat) :
    (b.remove id).find? id' = if id = id' then none else b.find? id' :=
  SortedMap.find?_erase ..

end Bridge

theorem Device.id_blueprint (d : Device) :
    d.blueprint.accessory.id = Identity.topicId d.topic := by
  rw [blueprint]
  dsimp only
  cases d.mainService? with
  | none => rfl
  | some kind =>
    dsimp only
    split <;> rfl

namespace Hub

/-! ## Adapter and bridge in step -/

/-- The bridge shows what is installed under the ids of the topics and nothing
else, and what is installed stands for one of the given topics. -/
structure Displays (topics : List String) (h : Hub) : Prop where
  told : ∀ topic i, h.installed.find? topic = some i → topic ∈ topics
  named : ∀ topic i, h.installed.find? topic = some i →
    ∃ f, h.inventory.faces[i.accessory]? = some f ∧ f.1.id = Identity.topicId topic
  shown : ∀ topic i, h.installed.find? topic = some i →
    h.bridge.find? (Identity.topicId topic) = some i.accessory
  listed : ∀ id, (h.bridge.find? id).isSome →
    ∃ topic i, h.installed.find? topic = some i ∧ Identity.topicId topic = id

variable {topics : List String}

theorem displays_of_faces {h h' : Hub} (hd : h.Displays topics)
    (hinstalled : h'.installed = h.installed)
    (hfaces : h'.inventory.faces = h.inventory.faces) (hbridge : h'.bridge = h.bridge) :
    h'.Displays topics := by
  constructor
  · rw [hinstalled]
    exact hd.told
  · rw [hinstalled, hfaces]
    exact hd.named
  · rw [hinstalled, hbridge]
    exact hd.shown
  · rw [hinstalled, hbridge]
    exact hd.listed

/-- No accessory is shown for a device that has none. -/
theorem find?_bridge_eq_none {h : Hub} (hdistinct : Identity.Distinct topics)
    (hd : h.Displays topics) {topic : String} (htopic : topic ∈ topics)
    (hnone : h.installed.find? topic = none) :
    h.bridge.find? (Identity.topicId topic) = none := by
  rw [← Option.not_isSome_iff_eq_none]
  intro hsome
  obtain ⟨topic', i, hi, hid⟩ := hd.listed _ hsome
  have hsame : topic' = topic := hdistinct topic' (hd.told topic' i hi) topic htopic hid
  rw [hsame, hnone] at hi
  exact absurd hi (by simp)

/-- A new accessory is shown in the place of the one for its topic, if there was
one. -/
theorem displays_of_arrival {h h' : Hub} (ho : h.Orderly) (hdistinct : Identity.Distinct topics)
    (hd : h.Displays topics) {d : Device} (htopic : d.topic ∈ topics)
    (hinstalled : h'.installed = h.installed.insert d.topic (h.arrival d))
    (hfaces : h'.inventory.faces = h.inventory.faces ++ [d.face])
    (hbridge : ∀ id, h'.bridge.find? id =
      if Identity.topicId d.topic = id then some h.inventory.next else h.bridge.find? id) :
    h'.Displays topics := by
  have hcases : ∀ topic i, h'.installed.find? topic = some i →
      (d.topic = topic ∧ h.arrival d = i) ∨ (d.topic ≠ topic ∧ h.installed.find? topic = some i) := by
    intro topic i hi
    rw [hinstalled] at hi
    exact SortedMap.find?_insert_eq_some_iff.mp hi
  constructor
  · intro topic i hi
    rcases hcases topic i hi with ⟨rfl, -⟩ | ⟨-, hold⟩
    · exact htopic
    · exact hd.told topic i hold
  · intro topic i hi
    rcases hcases topic i hi with ⟨rfl, rfl⟩ | ⟨-, hold⟩
    · exact ⟨d.face, face_arrival hfaces, Device.id_blueprint d⟩
    · obtain ⟨f, hf, hid⟩ := hd.named topic i hold
      exact ⟨f, (face_of_arrival ho hfaces hold).trans hf, hid⟩
  · intro topic i hi
    rw [hbridge]
    rcases hcases topic i hi with ⟨rfl, rfl⟩ | ⟨hne, hold⟩
    · rw [if_pos rfl]
      rfl
    · -- another topic has another id, so its accessory is still shown
      have hid : Identity.topicId d.topic ≠ Identity.topicId topic := fun heq =>
        hne (hdistinct d.topic htopic topic (hd.told topic i hold) heq)
      rw [if_neg hid]
      exact hd.shown topic i hold
  · intro id hid
    rw [hbridge] at hid
    by_cases heq : Identity.topicId d.topic = id
    · exact ⟨d.topic, h.arrival d, by rw [hinstalled, SortedMap.find?_insert_self], heq⟩
    · rw [if_neg heq] at hid
      obtain ⟨topic, i, hi, htid⟩ := hd.listed id hid
      have hne : d.topic ≠ topic := fun hsame => heq (hsame ▸ htid)
      exact ⟨topic, i, by rw [hinstalled, SortedMap.find?_insert, if_neg hne, hi], htid⟩

theorem displays_keep {h : Hub} (hs : h.Sound) (hd : h.Displays topics) (d : Device)
    (i : Installed) : (h.keep d i).Displays topics := by
  refine ⟨hd.told, fun topic j hj => ?_, hd.shown, hd.listed⟩
  obtain ⟨f, hf, hid⟩ := hd.named topic j hj
  rw [faces_keep hs.flagged, List.getElem?_modify, hf]
  by_cases hsame : i.accessory = j.accessory
  · exact ⟨(f.1, d.reachable), by simp [hsame], hid⟩
  · exact ⟨f, by simp [hsame], hid⟩

/-- The bridge is asked to remove the id of the topic, since that is the id of the
accessory. -/
theorem bridge_teardown {h : Hub} (hs : h.Sound) (hd : h.Displays topics) {d : Device}
    {i : Installed} (hfind : h.installed.find? d.topic = some i) :
    (h.teardown d i).bridge = h.bridge.remove (Identity.topicId d.topic) := by
  obtain ⟨f, hf, hid⟩ := hd.named d.topic i hfind
  have hfaces : (h.detach i (h.installed.erase d.topic)).inventory.faces = h.inventory.faces :=
    faces_teardown hs.orderly d i
  rw [← hfaces] at hf
  obtain ⟨a, ha, haf⟩ := Inventory.get?_of_faces_getElem? hf
  have haid : a.id = Identity.topicId d.topic := by
    rw [← hid, ← haf]
    rfl
  rw [teardown]
  dsimp only
  rw [ha, bridge_detach, Option.map_some, Option.getD_some, haid]

theorem displays_teardown {h : Hub} (hs : h.Sound) (hdistinct : Identity.Distinct topics)
    (hd : h.Displays topics) {d : Device} {i : Installed}
    (hfind : h.installed.find? d.topic = some i) : (h.teardown d i).Displays topics := by
  have hkept : ∀ topic j, (h.teardown d i).installed.find? topic = some j →
      d.topic ≠ topic ∧ h.installed.find? topic = some j := by
    intro topic j hj
    rw [installed_teardown] at hj
    exact SortedMap.find?_erase_eq_some_iff.mp hj
  constructor
  · exact fun topic j hj => hd.told topic j (hkept topic j hj).2
  · rw [faces_teardown hs.orderly]
    exact fun topic j hj => hd.named topic j (hkept topic j hj).2
  · intro topic j hj
    obtain ⟨hne, hold⟩ := hkept topic j hj
    have hid : Identity.topicId d.topic ≠ Identity.topicId topic := fun heq =>
      hne (hdistinct d.topic (hd.told d.topic i hfind) topic (hd.told topic j hold) heq)
    rw [bridge_teardown hs hd hfind, Bridge.find?_remove, if_neg hid]
    exact hd.shown topic j hold
  · intro id hid
    rw [bridge_teardown hs hd hfind, Bridge.find?_remove] at hid
    by_cases heq : Identity.topicId d.topic = id
    · rw [if_pos heq] at hid
      exact absurd hid (by simp)
    · rw [if_neg heq] at hid
      obtain ⟨topic, j, hj, htid⟩ := hd.listed id hid
      have hne : d.topic ≠ topic := fun hsame => heq (hsame ▸ htid)
      refine ⟨topic, j, ?_, htid⟩
      rw [installed_teardown, SortedMap.find?_erase, if_neg hne, hj]

/-! ## Taking in a change -/

theorem displays_of_takes {h h' : Hub} {e : Event} (hs : h.Sound)
    (hdistinct : Identity.Distinct topics) (hd : h.Displays topics)
    (htopic : e.device.topic ∈ topics) (ht : h.Takes e h') : h'.Displays topics := by
  cases ht with
  | @install d hnew =>
    refine displays_of_arrival hs.orderly hdistinct hd htopic (installed_install ..)
      (faces_install ..) fun id => ?_
    rw [bridge_install, Bridge.find?_add, Device.id_blueprint]
    rfl
  | keep hfind hfits => exact displays_keep hs hd _ _
  | @renew d i hfind =>
    refine displays_of_arrival hs.orderly hdistinct hd htopic (installed_renew ..)
      (faces_renew hs.orderly _ _) fun id => ?_
    rw [bridge_renew, Bridge.find?_replace, Device.id_blueprint]
    rfl
  | ignore hnone => exact hd
  | teardown hfind => exact displays_teardown hs hdistinct hd hfind

theorem asked_of_takes {h h' : Hub} {e : Event} (hs : h.Sound)
    (hdistinct : Identity.Distinct topics) (hd : h.Displays topics)
    (htopic : e.device.topic ∈ topics) (ht : h.Takes e h') : h.bridge.Asked h'.bridge := by
  have hshown : ∀ topic i, h.installed.find? topic = some i →
      (h.bridge.find? (Identity.topicId topic)).isSome := by
    intro topic i hi
    rw [hd.shown topic i hi]
    rfl
  cases ht with
  | @install d hnew =>
    rw [bridge_install, Device.id_blueprint]
    exact .add _ (find?_bridge_eq_none hdistinct hd htopic hnew)
  | keep hfind hfits => exact .nothing
  | @renew d i hfind =>
    rw [bridge_renew, Device.id_blueprint]
    exact .replace _ (hshown d.topic i hfind)
  | ignore hnone => exact .nothing
  | @teardown d i hfind =>
    rw [bridge_teardown hs hd hfind]
    exact .remove (hshown d.topic i hfind)

/-- The ids on the bridge are those of the installed topics, each once. -/
theorem ids_perm {h : Hub} (hdistinct : Identity.Distinct topics) (hd : h.Displays topics) :
    h.bridge.ids.Perm (h.installed.keys.map Identity.topicId) := by
  have hkeys : ∀ topic ∈ h.installed.keys, topic ∈ topics := by
    intro topic hmem
    obtain ⟨i, hi⟩ := Option.isSome_iff_exists.mp (SortedMap.mem_keys_iff.mp hmem)
    exact hd.told topic i hi
  have hnodup : (h.installed.keys.map Identity.topicId).Nodup := by
    refine List.Nodup.map_on ?_ (SortedMap.nodup_keys _)
    exact fun topic hmem topic' hmem' heq =>
      hdistinct topic (hkeys topic hmem) topic' (hkeys topic' hmem') heq
  have hids : ∀ id, id ∈ h.bridge.ids ↔ (h.bridge.find? id).isSome := fun id =>
    SortedMap.mem_keys_iff
  have hids_nodup : h.bridge.ids.Nodup := SortedMap.nodup_keys _
  refine (List.perm_ext_iff_of_nodup hids_nodup hnodup).mpr fun id => ?_
  rw [hids, List.mem_map]
  constructor
  · intro hid
    obtain ⟨topic, i, hi, htid⟩ := hd.listed id hid
    refine ⟨topic, ?_, htid⟩
    rw [SortedMap.mem_keys_iff, hi]
    rfl
  · rintro ⟨topic, hmem, rfl⟩
    obtain ⟨i, hi⟩ := Option.isSome_iff_exists.mp (SortedMap.mem_keys_iff.mp hmem)
    rw [hd.shown topic i hi]
    rfl

end Hub
end HomeSync
