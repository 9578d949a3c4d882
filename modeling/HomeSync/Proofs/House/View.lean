import HomeSync.Proofs.Adapter.Unseen
import HomeSync.Proofs.House.Display
import HomeSync.Proofs.House.Taken

/-
An update replaces an accessory exactly if a controller could see the difference.

The adapter compares what it would build with what it has, but what it has may have
been built for a much earlier device.  Since every device that left the accessory in
place had the same view, the comparison is one between the last two devices.
-/
namespace HomeSync

namespace Accessory

/-- Setting the flag leaves all other characteristics as they are, values included. -/
theorem getElem?_setReachable {a : Accessory} (r : Bool) {n : Nat} {c : Characteristic}
    (hc : a.characteristics[n]? = some c) (hcode : c.typeCode ≠ TypeCode.reachable) :
    (a.setReachable r).characteristics[n]? = some c := by
  rw [setReachable, modifyType, characteristics_modify]
  generalize a.characteristics = l at hc ⊢
  induction l generalizing n with
  | nil => simp at hc
  | cons c₀ rest ih =>
    rw [changeFirst]
    cases n with
    | zero =>
      obtain rfl : c₀ = c := Option.some.inj hc
      rw [if_neg (by simpa using hcode)]
      rfl
    | succ n =>
      split
      · exact hc
      · exact ih hc

end Accessory

namespace House

/-- Let an accessory be installed for a topic, and take the device of the last update
for the topic and any other device with this topic.  If the two have the same view,
an update with the other device asks nothing of the bridge or the bus and changes
nothing of the accessory but the reachable flag.  If not, the bridge is asked once, to
replace the accessory.  After both the flag is that of the other device.  Changes that
no controller sees do not change the view. -/
theorem update_by_view {recording : Bool} {info : Nameplate} {moves : List Move}
    {topic : String} {i : Installed} {d : Device}
    (hi : ((House.create recording info).run moves).hub.installed.find? topic = some i)
    (hlast : Event.LastUpdate ((House.create recording info).taken moves) topic d)
    (d' : Device) (htopic : d'.topic = topic) :
    let h := ((House.create recording info).run moves).hub
    let h' := h.deviceUpdated d'
    (d.view = d'.view →
      h'.bridge = h.bridge ∧ h'.bus = h.bus ∧ h'.installed = h.installed ∧
      (∀ n, n ≠ i.accessory → h'.inventory.get? n = h.inventory.get? n) ∧
      ∃ a, h.inventory.get? i.accessory = some a ∧
        h'.inventory.get? i.accessory = some (a.setReachable d'.reachable) ∧
        ∀ (n : Nat) c, a.characteristics[n]? = some c → c.typeCode ≠ TypeCode.reachable →
          (a.setReachable d'.reachable).characteristics[n]? = some c) ∧
    (d.view ≠ d'.view →
      ∃ i', i'.accessory ≠ i.accessory ∧ h'.installed = h.installed.insert topic i' ∧
        h'.bridge = h.bridge.replace (Identity.topicId topic) i'.accessory) ∧
    (h'.accessory? topic).map Accessory.reachable = some d'.reachable ∧
    (Relation.ReflTransGen Device.Unseen d d' → d.view = d'.view) := by
  intro h h'
  have hs : h.Sound := run_keeps (P := fun h => h.hub.Sound) (fun _ m hs => sound_step hs m) moves
    (sound_create recording info)
  have hp : h.Presents i d := presents_lastUpdate hi hlast
  have hsame : d.topic = d'.topic := hlast.1.trans htopic.symm
  have hfits : h.fits i d'.blueprint = true ↔ d.view = d'.view := Hub.fits_iff_view hp hsame
  have hfind : h.installed.find? d'.topic = some i := by
    rw [htopic]
    exact hi
  have hupdated : h' = if h.fits i d'.blueprint then h.keep d' i else h.renew d' i := by
    show h.deviceUpdated d' = _
    rw [Hub.deviceUpdated, hfind]
  refine ⟨fun hview => ?_, fun hview => ?_, ?_, Device.view_of_unseen_changes⟩
  · obtain ⟨⟨a, ha, -, -⟩, -⟩ := hp
    rw [if_pos (hfits.mpr hview)] at hupdated
    rw [hupdated]
    refine ⟨rfl, rfl, rfl, fun n hn => ?_, a, ha, ?_, fun n c => Accessory.getElem?_setReachable _⟩
    · exact List.getElem?_modify_ne _ _ (Ne.symm hn)
    · show (h.inventory.accessories.modify i.accessory _)[i.accessory]? = _
      rw [List.getElem?_modify_eq]
      exact congrArg (Option.map _) ha
  · rw [if_neg (fun h => hview (hfits.mp h))] at hupdated
    rw [hupdated]
    refine ⟨h.arrival d', ?_, ?_, ?_⟩
    · exact Nat.ne_of_gt (hs.orderly.numbered topic i hi)
    · rw [Hub.installed_renew, htopic]
    · rw [Hub.bridge_renew, Device.id_blueprint, htopic]
      rfl
  · have hshows := Hub.shows_of_takes hs (Hub.takes_handle h (.updated d'))
      (shows_taken recording info moves)
    have htold : (h'.installed.find? d'.topic).isSome := by
      refine (hshows.alike d'.topic).trans ?_
      rw [Event.record, SortedMap.find?_insert_self]
      rfl
    obtain ⟨i', hi'⟩ := Option.isSome_iff_exists.mp htold
    obtain ⟨⟨a, ha, -, hreachable⟩, -⟩ := hshows.presents d'.topic i' d' hi' (by
      rw [Event.record, SortedMap.find?_insert_self])
    rw [← htopic, Hub.accessory?, hi', Option.bind_some]
    have ha : h'.inventory.get? i'.accessory = some a := ha
    rw [ha, Option.map_some, hreachable]

/-- The renamed lamp again, with another will, its type in capitals and a feature that
nobody knows. -/
def retouchedLamp : Device :=
  { (switchable "hall/lamp" "Hall lamp").addFeature "mood" {} with
    deviceType := "OUTLET", lastWill := some "b1e4", reachable := true }

theorem update_by_view_changing :
    let h := ((House.create false {}).run changingMoves).hub
    (∃ i, h.installed.find? "hall/lamp" = some i) ∧
    Event.LastUpdate ((House.create false {}).taken changingMoves) "hall/lamp"
      (switchable "hall/lamp" "Hall lamp") ∧
    (h.deviceUpdated retouchedLamp).bridge = h.bridge ∧
    ((h.deviceUpdated retouchedLamp).accessory? "hall/lamp").map Accessory.reachable =
      some true ∧
    ∃ i', (h.deviceUpdated (switchable "hall/lamp" "Lamp")).bridge =
      h.bridge.replace (Identity.topicId "hall/lamp") i' := by
  intro h
  have hinstalled : (h.installed.find? "hall/lamp").isSome := by decide +kernel
  obtain ⟨i, hi⟩ := Option.isSome_iff_exists.mp hinstalled
  have hlast : Event.LastUpdate ((House.create false {}).taken changingMoves) "hall/lamp"
      (switchable "hall/lamp" "Hall lamp") :=
    ⟨rfl, [.updated (switchable "hall/lamp" "Lamp"), .updated (switchable "attic/fan" "Fan")],
      [.removed (switchable "attic/fan" "Fan"), .updated (switchable "attic/fan" "Fan")], rfl, by
        simp [switchable, Device.addFeature]⟩
  obtain ⟨hkept, -, hflag, -⟩ := update_by_view hi hlast retouchedLamp rfl
  obtain ⟨-, hreplaced, -⟩ := update_by_view hi hlast (switchable "hall/lamp" "Lamp") rfl
  obtain ⟨i', -, -, hbridge⟩ := hreplaced (by decide +kernel)
  exact ⟨⟨i, hi⟩, hlast, (hkept (by decide +kernel)).1, hflag, i'.accessory, hbridge⟩

end House
end HomeSync
