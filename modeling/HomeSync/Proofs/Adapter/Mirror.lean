import HomeSync.Proofs.Accessory.Shape
import HomeSync.Proofs.Adapter.Steps
import HomeSync.Proofs.Registry.Replay

/-
The installed accessories show the devices that the adapter was told of.

Reports and writes leave the faces of all accessories alone, so a hub that shows
a map of devices goes on showing it until the next change is taken in.  Taking in
a change and recording it in the map agree.  Where an accessory stays in place,
this is so because it fits the blueprint of the new device, not because it came
from it.
-/
namespace HomeSync

namespace Binding

/-- The name of a feature and its two topics. -/
def topics (b : Binding) : String × String × String :=
  (b.feature.name, b.feature.getTopic, b.feature.setTopic)

theorem sameTopics_iff {a b : Binding} : a.sameTopics b = true ↔ a.topics = b.topics := by
  simp [sameTopics, topics, and_assoc]

end Binding

/-- The face of an accessory that presents a device. -/
def Device.face (d : Device) : Accessory × Bool := (d.blueprint.accessory.blank, d.reachable)

namespace Hub

/-- An installed accessory has the structure, the topics and the reachability of
a device. -/
structure Presents (h : Hub) (i : Installed) (d : Device) : Prop where
  accessory : ∃ a, h.inventory.get? i.accessory = some a ∧
    a.sameStructure d.blueprint.accessory = true ∧ a.reachable = d.reachable
  topics : i.bindings.map Binding.topics = d.blueprint.bindings.map Binding.topics

/-- There is an accessory for every device that was told of, and for no other,
and each presents its device. -/
structure Shows (h : Hub) (told : SortedMap String Device) : Prop where
  alike : ∀ topic, (h.installed.find? topic).isSome = (told.find? topic).isSome
  presents : ∀ topic i d, h.installed.find? topic = some i → told.find? topic = some d →
    h.Presents i d

/-- What every state of a hub has. -/
structure Sound (h : Hub) : Prop where
  orderly : h.Orderly
  shielded : h.bus.Shielded
  flagged : h.inventory.Flagged

/-! ## Changes of values -/

theorem sound_of_faces {h h' : Hub} (hs : h.Sound) (hinstalled : h'.installed = h.installed)
    (hfaces : h'.inventory.faces = h.inventory.faces) (hbus : h'.bus.Shielded) : h'.Sound := by
  refine ⟨?_, hbus, ?_⟩
  · exact orderly_of_eq hs.orderly hinstalled (Inventory.next_of_faces hfaces)
  · rw [Inventory.Flagged, hfaces]
    exact hs.flagged

theorem presents_of_face {h h' : Hub} {i : Installed} {d : Device} (hp : h.Presents i d)
    (hface : h'.inventory.faces[i.accessory]? = h.inventory.faces[i.accessory]?) :
    h'.Presents i d := by
  obtain ⟨⟨a, ha, hstructure, hreachable⟩, htopics⟩ := hp
  rw [Inventory.faces_getElem?_of_get? ha] at hface
  obtain ⟨a', ha', haface⟩ := Inventory.get?_of_faces_getElem? hface
  have hblank : a'.blank = a.blank := congrArg Prod.fst haface
  have hflag : a'.reachable = a.reachable := congrArg Prod.snd haface
  refine ⟨⟨a', ha', ?_, hflag.trans hreachable⟩, htopics⟩
  rw [Accessory.sameStructure_congr hblank]
  exact hstructure

theorem shows_of_faces {h h' : Hub} {told : SortedMap String Device} (hshows : h.Shows told)
    (hinstalled : h'.installed = h.installed)
    (hfaces : h'.inventory.faces = h.inventory.faces) : h'.Shows told := by
  refine ⟨?_, ?_⟩
  · rw [hinstalled]
    exact hshows.alike
  · rw [hinstalled]
    intro topic i d hi hd
    refine presents_of_face (hshows.presents topic i d hi hd) ?_
    rw [hfaces]

/-! ## Faces after a change -/

theorem faces_attach {i : Installed} (hcode : ∀ b ∈ i.bindings, b.typeCode ≠ TypeCode.reachable)
    (h : Hub) : (h.attach i).inventory.faces = h.inventory.faces := by
  rw [attach_eq_followAll]
  apply faces_followAll
  intro p hp
  obtain ⟨b, hb, rfl⟩ := List.mem_map.mp hp
  exact hcode b hb

theorem shielded_attach {i : Installed}
    (hcode : ∀ b ∈ i.bindings, b.typeCode ≠ TypeCode.reachable) {h : Hub}
    (hbus : h.bus.Shielded) : (h.attach i).bus.Shielded := by
  rw [attach_eq_followAll]
  apply shielded_followAll _ hbus
  intro p hp
  obtain ⟨b, hb, rfl⟩ := List.mem_map.mp hp
  exact hcode b hb

theorem typeCode_ne_of_mem_restored {h : Hub} (ho : h.Orderly) (leaving : Installed)
    (topic : String) :
    ∀ p ∈ restored leaving (h.installed.erase topic).values, p.2.typeCode ≠ TypeCode.reachable := by
  intro p hp
  obtain ⟨i, hi, -, hb⟩ := mem_bindings_of_mem_restored hp
  obtain ⟨t, -, ht⟩ := SortedMap.find?_of_mem_values_erase hi
  exact typeCode_ne_of_orderly ho ht p.2 hb

theorem faces_stocked (h : Hub) (d : Device) :
    (h.stocked d).inventory.faces = h.inventory.faces ++ [d.face] := by
  rw [Device.face, stocked, ← Accessory.face_setReachable (Device.flagged_blueprint d)]
  exact List.map_append

theorem faces_install (h : Hub) (d : Device) :
    (h.install d).inventory.faces = h.inventory.faces ++ [d.face] := by
  rw [inventory_install, faces_attach (typeCode_ne_arrival h d), faces_stocked]

theorem faces_renew {h : Hub} (ho : h.Orderly) (d : Device) (i : Installed) :
    (h.renew d i).inventory.faces = h.inventory.faces ++ [d.face] := by
  rw [inventory_renew, faces_attach (typeCode_ne_arrival h d), detach_eq_followAll,
    faces_followAll (typeCode_ne_of_mem_restored ho i d.topic)]
  exact faces_stocked h d

theorem faces_teardown {h : Hub} (ho : h.Orderly) (d : Device) (i : Installed) :
    (h.teardown d i).inventory.faces = h.inventory.faces := by
  rw [teardown]
  dsimp only
  rw [detach_eq_followAll, faces_followAll (typeCode_ne_of_mem_restored ho i d.topic)]

theorem shielded_of_takes {h h' : Hub} {e : Event} (ho : h.Orderly) (hbus : h.bus.Shielded)
    (ht : h.Takes e h') : h'.bus.Shielded := by
  have hdetach : ∀ (g : Hub) (d : Device) (i : Installed), g.bus.Shielded →
      (g.detach i (h.installed.erase d.topic)).bus.Shielded := by
    intro g d i hg
    rw [detach_eq_followAll]
    exact shielded_followAll (typeCode_ne_of_mem_restored ho i d.topic)
      (Bus.shielded_unsubscribe hg _)
  cases ht with
  | @install d hnew =>
    rw [bus_install]
    exact shielded_attach (typeCode_ne_arrival h d) hbus
  | keep hfind hfits => exact hbus
  | @renew d i hfind =>
    rw [bus_renew]
    exact shielded_attach (typeCode_ne_arrival h d) (hdetach _ d i hbus)
  | ignore hnone => exact hbus
  | teardown hfind => exact hdetach _ _ _ hbus

/-- What holds of all blanks and of the blank of a new accessory holds of all blanks
afterwards. -/
theorem blanks_of_append {P : Accessory → Prop} {h h' : Hub} (hP : ∀ f ∈ h.inventory.faces, P f.1)
    {d : Device} (hd : P d.blueprint.accessory.blank)
    (hfaces : h'.inventory.faces = h.inventory.faces ++ [d.face]) :
    ∀ f ∈ h'.inventory.faces, P f.1 := by
  intro f hf
  rw [hfaces] at hf
  rcases List.mem_append.mp hf with hold | hnew
  · exact hP f hold
  · rw [List.mem_singleton.mp hnew]
    exact hd

theorem flagged_of_append {h h' : Hub} (hflagged : h.inventory.Flagged) {d : Device}
    (hfaces : h'.inventory.faces = h.inventory.faces ++ [d.face]) :
    h'.inventory.Flagged :=
  blanks_of_append hflagged (Accessory.flagged_blank.mpr (Device.flagged_blueprint d)) hfaces

/-- Passing the reachable flag on changes one face, and there only the flag. -/
theorem faces_keep {h : Hub} (hflagged : h.inventory.Flagged) (d : Device) (i : Installed) :
    (h.keep d i).inventory.faces =
      h.inventory.faces.modify i.accessory fun f => (f.1, d.reachable) := by
  apply List.ext_getElem?
  intro n
  rw [keep, Inventory.faces, Inventory.faces, Inventory.modify, List.getElem?_map,
    List.getElem?_modify, List.getElem?_modify, List.getElem?_map]
  cases ha : h.inventory.accessories[n]? with
  | none => simp
  | some a =>
    have hflag := Accessory.reachable_setReachable (Inventory.flagged_of_get? hflagged ha)
    by_cases hn : i.accessory = n
    · simp [hn, Accessory.face, Accessory.blank_setReachable, hflag]
    · simp [hn]

/-- Passing the reachable flag on leaves all blanks as they are. -/
theorem blanks_keep {P : Accessory → Prop} {h : Hub} (hP : ∀ f ∈ h.inventory.faces, P f.1)
    (hflagged : h.inventory.Flagged) (d : Device) (i : Installed) :
    ∀ f ∈ (h.keep d i).inventory.faces, P f.1 := by
  intro f hf
  rw [faces_keep hflagged] at hf
  obtain ⟨n, hn⟩ := List.getElem?_of_mem hf
  rw [List.getElem?_modify, Option.map_eq_map, Option.map_eq_some_iff] at hn
  obtain ⟨f₀, hf₀, rfl⟩ := hn
  have hold := hP f₀ (List.mem_of_getElem? hf₀)
  split
  · exact hold
  · exact hold

theorem flagged_keep {h : Hub} (hflagged : h.inventory.Flagged) (d : Device) (i : Installed) :
    (h.keep d i).inventory.Flagged := blanks_keep hflagged hflagged d i

theorem sound_of_takes {h h' : Hub} {e : Event} (hs : h.Sound) (ht : h.Takes e h') :
    h'.Sound := by
  refine ⟨orderly_of_takes hs.orderly ht, shielded_of_takes hs.orderly hs.shielded ht, ?_⟩
  cases ht with
  | install hnew => exact flagged_of_append hs.flagged (faces_install ..)
  | keep hfind hfits => exact flagged_keep hs.flagged _ _
  | renew hfind => exact flagged_of_append hs.flagged (faces_renew hs.orderly _ _)
  | ignore hnone => exact hs.flagged
  | teardown hfind =>
    rw [Inventory.Flagged, faces_teardown hs.orderly]
    exact hs.flagged

/-! ## Taking in a change -/

/-- A new accessory is put at the end of the inventory. -/
theorem face_arrival {h h' : Hub} {d : Device}
    (hfaces : h'.inventory.faces = h.inventory.faces ++ [d.face]) :
    h'.inventory.faces[(h.arrival d).accessory]? = some d.face := by
  have hlength : h.inventory.next = h.inventory.faces.length := (List.length_map ..).symm
  rw [hfaces, arrival, hlength, List.getElem?_concat_length]

/-- The accessories that were installed before it keep their places. -/
theorem face_of_arrival {h h' : Hub} (ho : h.Orderly) {d : Device}
    (hfaces : h'.inventory.faces = h.inventory.faces ++ [d.face]) {topic : String} {i : Installed}
    (hi : h.installed.find? topic = some i) :
    h'.inventory.faces[i.accessory]? = h.inventory.faces[i.accessory]? := by
  have hlt : i.accessory < h.inventory.faces.length := by
    rw [Inventory.faces, List.length_map]
    exact ho.numbered topic i hi
  rw [hfaces, List.getElem?_append_left hlt]

theorem presents_arrival {h h' : Hub} {d : Device}
    (hfaces : h'.inventory.faces = h.inventory.faces ++ [d.face]) :
    h'.Presents (h.arrival d) d := by
  obtain ⟨a, ha, hface⟩ := Inventory.get?_of_faces_getElem? (face_arrival hfaces)
  obtain ⟨hblank, hflag⟩ := Prod.mk.inj hface
  refine ⟨⟨a, ha, ?_, hflag⟩, ?_⟩
  · rw [Accessory.sameStructure_congr hblank]
    exact Device.sameStructure_blueprint d
  · rw [Device.bindings_blueprint, arrival]

theorem shows_of_arrival {h h' : Hub} {told : SortedMap String Device} (ho : h.Orderly)
    (hshows : h.Shows told) {d : Device}
    (hinstalled : h'.installed = h.installed.insert d.topic (h.arrival d))
    (hfaces : h'.inventory.faces = h.inventory.faces ++ [d.face]) :
    h'.Shows (told.insert d.topic d) := by
  constructor
  · intro topic
    rw [hinstalled, SortedMap.find?_insert, SortedMap.find?_insert]
    by_cases ht : d.topic = topic
    · rw [if_pos ht, if_pos ht]
      rfl
    · rw [if_neg ht, if_neg ht]
      exact hshows.alike topic
  · intro topic i d' hi hd'
    rw [hinstalled] at hi
    rcases SortedMap.find?_insert_eq_some_iff.mp hi with ⟨ht, rfl⟩ | ⟨ht, hi⟩ <;>
      rcases SortedMap.find?_insert_eq_some_iff.mp hd' with ⟨ht', rfl⟩ | ⟨ht', hd'⟩
    · exact presents_arrival hfaces
    · exact absurd ht ht'
    · exact absurd ht' ht
    · exact presents_of_face (hshows.presents topic i d' hi hd') (face_of_arrival ho hfaces hi)

theorem fits_eq_true_iff (h : Hub) (i : Installed) (plan : Blueprint) :
    h.fits i plan = true ↔
      (∃ a, h.inventory.get? i.accessory = some a ∧
        a.sameStructure plan.accessory = true) ∧
      i.bindings.map Binding.topics = plan.bindings.map Binding.topics := by
  have hbindings := all_zip_iff (r := Binding.sameTopics) (P := fun _ => True)
    (f := Binding.topics) (fun a b => by rw [Binding.sameTopics_iff, true_and]) i.bindings
    plan.bindings
  rw [fits, Bool.and_eq_true, Bool.and_eq_true, beq_iff_eq, and_assoc, hbindings,
    Option.any_eq_true]
  simp

/-- An accessory that fits presents the device as soon as the flag is passed on. -/
theorem presents_keep {h : Hub} (hflagged : h.inventory.Flagged) {d : Device} {i : Installed}
    (hfits : h.fits i d.blueprint = true) : (h.keep d i).Presents i d := by
  obtain ⟨⟨a, ha, hstructure⟩, htopics⟩ := (fits_eq_true_iff h i d.blueprint).mp hfits
  refine ⟨⟨a.setReachable d.reachable, ?_, ?_, ?_⟩, htopics⟩
  · show (h.inventory.accessories.modify i.accessory _)[i.accessory]? = _
    rw [List.getElem?_modify_eq, show h.inventory.accessories[i.accessory]? = some a from ha]
    rfl
  · rw [Accessory.sameStructure_congr (Accessory.blank_setReachable a d.reachable)]
    exact hstructure
  · exact Accessory.reachable_setReachable (Inventory.flagged_of_get? hflagged ha) _

theorem shows_keep {h : Hub} {told : SortedMap String Device} (hs : h.Sound)
    (hshows : h.Shows told) {d : Device} {i : Installed}
    (hfind : h.installed.find? d.topic = some i) (hfits : h.fits i d.blueprint = true) :
    (h.keep d i).Shows (told.insert d.topic d) := by
  constructor
  · intro topic
    show (h.installed.find? topic).isSome = _
    rw [SortedMap.find?_insert]
    by_cases ht : d.topic = topic
    · rw [if_pos ht, ← ht, hfind]
      rfl
    · rw [if_neg ht]
      exact hshows.alike topic
  · intro topic j d' hj hd'
    replace hj : h.installed.find? topic = some j := hj
    rcases SortedMap.find?_insert_eq_some_iff.mp hd' with ⟨ht, rfl⟩ | ⟨ht, hd'⟩
    · rw [← ht, hfind, Option.some.injEq] at hj
      rw [← hj]
      exact presents_keep hs.flagged hfits
    · -- no other topic shares the accessory whose flag is set
      refine presents_of_face (hshows.presents topic j d' hj hd') ?_
      have hother : i.accessory ≠ j.accessory := fun heq =>
        ht (hs.orderly.distinct d.topic topic i j hfind hj heq)
      rw [faces_keep hs.flagged, List.getElem?_modify_ne _ _ hother]

theorem shows_of_erase {h h' : Hub} {told : SortedMap String Device} (hshows : h.Shows told)
    {topic : String} (hinstalled : h'.installed = h.installed.erase topic)
    (hfaces : h'.inventory.faces = h.inventory.faces) : h'.Shows (told.erase topic) := by
  constructor
  · intro t
    rw [hinstalled, SortedMap.find?_erase, SortedMap.find?_erase]
    by_cases ht : topic = t
    · rw [if_pos ht, if_pos ht]
      rfl
    · rw [if_neg ht, if_neg ht]
      exact hshows.alike t
  · intro t i d hi hd
    rw [hinstalled, SortedMap.find?_erase_eq_some_iff] at hi
    rw [SortedMap.find?_erase_eq_some_iff] at hd
    refine presents_of_face (hshows.presents t i d hi.2 hd.2) ?_
    rw [hfaces]

/-- Taking in a change and recording it agree. -/
theorem shows_of_takes {h h' : Hub} {e : Event} {told : SortedMap String Device} (hs : h.Sound)
    (ht : h.Takes e h') (hshows : h.Shows told) : h'.Shows (e.record told) := by
  cases ht with
  | install hnew =>
    exact shows_of_arrival hs.orderly hshows (installed_install ..) (faces_install ..)
  | keep hfind hfits => exact shows_keep hs hshows hfind hfits
  | renew hfind =>
    exact shows_of_arrival hs.orderly hshows (installed_renew ..) (faces_renew hs.orderly _ _)
  | @ignore d hnone =>
    refine shows_of_erase hshows ?_ rfl
    rw [SortedMap.erase_of_find?_none hnone]
  | teardown hfind => exact shows_of_erase hshows rfl (faces_teardown hs.orderly _ _)

end Hub
end HomeSync
