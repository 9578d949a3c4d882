import HomeSync.Proofs.Adapter.Display
import HomeSync.Proofs.Adapter.Retained

/-
What stands for a topic, as long as nothing is retained on the bus.

An event names one device, but the hub that takes it in goes through all the others:
it cuts off every characteristic on the topics of an accessory that leaves and
subscribes those that stay again.  On a bus without retained messages this tells the
characteristics nothing new.  So what stands for a topic afterwards, and what the
bridge is asked, depends on the event and on what stood for its own topic before.
-/
namespace HomeSync

/-- An accessory with its values, and the features that it shows. -/
structure Exhibit where
  accessory : Accessory
  bindings : List Binding
  deriving DecidableEq

namespace Bridge

/-- What a bridge can be asked. -/
inductive Request where
  | add
  | replace
  | remove
  deriving DecidableEq

/-- How often a bridge was asked for something. -/
def asked (b : Bridge) : Request → Nat
  | .add => b.adds
  | .replace => b.replaces
  | .remove => b.removes

end Bridge

namespace Exhibit

/-- The exhibit of a device that is taken in for the first time. -/
def fresh (d : Device) : Exhibit :=
  ⟨d.blueprint.accessory.setReachable d.reachable, d.bindings⟩

def fits (x : Exhibit) (plan : Blueprint) : Bool :=
  x.accessory.sameStructure plan.accessory && x.bindings.length == plan.bindings.length
    && (x.bindings.zip plan.bindings).all fun p => p.1.sameTopics p.2

/-- What stands for the topic of an event after it. -/
def after (known : Option Exhibit) : Event → Option Exhibit
  | .updated d =>
    match known with
    | none => some (fresh d)
    | some x =>
      if x.fits d.blueprint then
        some { x with accessory := x.accessory.setReachable d.reachable }
      else some (fresh d)
  | .removed _ => none

/-- What an event makes the hub ask of the bridge. -/
def request? (known : Option Exhibit) : Event → Option Bridge.Request
  | .updated d =>
    match known with
    | none => some .add
    | some x => if x.fits d.blueprint then none else some .replace
  | .removed _ => known.map fun _ => .remove

end Exhibit

namespace Hub

def exhibit? (h : Hub) (topic : String) : Option Exhibit :=
  (h.installed.find? topic).bind fun i =>
    (h.inventory.get? i.accessory).map fun a => ⟨a, i.bindings⟩

theorem exhibit?_of_installed {h : Hub} (ho : h.Orderly) {topic : String} {i : Installed}
    (hi : h.installed.find? topic = some i) :
    ∃ a, h.inventory.get? i.accessory = some a ∧ h.exhibit? topic = some ⟨a, i.bindings⟩ := by
  have hlt : i.accessory < h.inventory.accessories.length := ho.numbered topic i hi
  have ha : h.inventory.get? i.accessory = some h.inventory.accessories[i.accessory] :=
    List.getElem?_eq_getElem hlt
  exact ⟨_, ha, by rw [exhibit?, hi, Option.bind_some, ha, Option.map_some]⟩

theorem exhibit?_of_not_installed {h : Hub} {topic : String}
    (hnone : h.installed.find? topic = none) : h.exhibit? topic = none := by
  rw [exhibit?, hnone, Option.bind_none]

theorem fits_eq_of_get? {h : Hub} {i : Installed} {a : Accessory}
    (ha : h.inventory.get? i.accessory = some a) (plan : Blueprint) :
    h.fits i plan = (⟨a, i.bindings⟩ : Exhibit).fits plan := by
  rw [fits, ha, Option.any_some, Exhibit.fits]

/-! ## Following on a bus without retained messages -/

/-- Nothing is retained, so whoever subscribes is handed nothing. -/
def Quiet (h : Hub) : Prop := h.bus.retained = SortedMap.empty

theorem inventory_follow_of_quiet {h : Hub} (hq : h.Quiet) (n : Nat) (b : Binding) :
    (h.follow n b).inventory = h.inventory := by
  have hnone : h.bus.retainedFor b.feature.getTopic = [] := by
    rw [Bus.retainedFor, hq]
    rfl
  apply follow_cases h n b (P := fun g => g.inventory = h.inventory) rfl
  rw [hnone]
  rfl

theorem inventory_followAll_of_quiet (l : List (Nat × Binding)) {h : Hub} (hq : h.Quiet) :
    (h.followAll l).inventory = h.inventory := by
  induction l generalizing h with
  | nil => rfl
  | cons p rest ih =>
    have hq' : (h.follow p.1 p.2).Quiet := (retained_follow h p.1 p.2).trans hq
    exact (ih hq').trans (inventory_follow_of_quiet hq p.1 p.2)

theorem inventory_attach_of_quiet {h : Hub} (hq : h.Quiet) (i : Installed) :
    (h.attach i).inventory = h.inventory := by
  rw [attach_eq_followAll, inventory_followAll_of_quiet _ hq]

theorem inventory_detach_of_quiet {h : Hub} (hq : h.Quiet) (i : Installed)
    (remaining : SortedMap String Installed) :
    (h.detach i remaining).inventory = h.inventory := by
  rw [detach_eq_followAll]
  exact inventory_followAll_of_quiet _ hq

theorem inventory_install_of_quiet {h : Hub} (hq : h.Quiet) (d : Device) :
    (h.install d).inventory = h.inventory.add (Exhibit.fresh d).accessory := by
  have hstocked : (h.stocked d).Quiet := hq
  rw [inventory_install, inventory_attach_of_quiet hstocked]
  rfl

theorem inventory_renew_of_quiet {h : Hub} (hq : h.Quiet) (d : Device) (i : Installed) :
    (h.renew d i).inventory = h.inventory.add (Exhibit.fresh d).accessory := by
  have hstocked : (h.stocked d).Quiet := hq
  have hdetached : ((h.stocked d).detach i (h.installed.erase d.topic)).Quiet :=
    (retained_detach _ _ _).trans hstocked
  rw [inventory_renew, inventory_attach_of_quiet hdetached, inventory_detach_of_quiet hstocked]
  rfl

theorem inventory_teardown_of_quiet {h : Hub} (hq : h.Quiet) (d : Device) (i : Installed) :
    (h.teardown d i).inventory = h.inventory :=
  inventory_detach_of_quiet hq i (h.installed.erase d.topic)

theorem quiet_handle {h : Hub} (hq : h.Quiet) (e : Event) : (h.handle e).Quiet :=
  (retained_of_cutting (cutting_handle h e)).trans hq

/-! ## One event -/

/-- A new accessory stands for the topic of its device; the others are left alone. -/
theorem exhibit?_of_arrival {h h' : Hub} (ho : h.Orderly) {d : Device}
    (hinstalled : h'.installed = h.installed.insert d.topic (h.arrival d))
    (hinventory : h'.inventory = h.inventory.add (Exhibit.fresh d).accessory) (topic : String) :
    h'.exhibit? topic = if d.topic = topic then some (Exhibit.fresh d) else h.exhibit? topic := by
  rw [exhibit?, hinstalled, hinventory, SortedMap.find?_insert]
  by_cases ht : d.topic = topic
  · rw [if_pos ht, if_pos ht, Option.bind_some]
    show ((h.inventory.accessories ++ [_])[h.inventory.accessories.length]?).map _ = _
    rw [List.getElem?_concat_length]
    rfl
  · rw [if_neg ht, if_neg ht]
    cases hi : h.installed.find? topic with
    | none => rw [exhibit?_of_not_installed hi, Option.bind_none]
    | some i =>
      have hlt : i.accessory < h.inventory.accessories.length := ho.numbered topic i hi
      have hget : (h.inventory.add (Exhibit.fresh d).accessory).get? i.accessory =
          h.inventory.get? i.accessory := List.getElem?_append_left hlt
      rw [exhibit?, hi, Option.bind_some, Option.bind_some, hget]

/-- Passing the reachable flag on changes no accessory but that of the topic. -/
theorem exhibit?_keep {h : Hub} (ho : h.Orderly) {d : Device} {i : Installed} {a : Accessory}
    (hi : h.installed.find? d.topic = some i) (ha : h.inventory.get? i.accessory = some a)
    (topic : String) :
    (h.keep d i).exhibit? topic =
      if d.topic = topic then some ⟨a.setReachable d.reachable, i.bindings⟩
      else h.exhibit? topic := by
  have hget : ∀ n, (h.keep d i).inventory.get? n =
      if i.accessory = n then (h.inventory.get? n).map (·.setReachable d.reachable)
      else h.inventory.get? n := by
    intro n
    show (h.inventory.accessories.modify i.accessory _)[n]? = _
    rw [List.getElem?_modify, Option.map_eq_map]
    split
    · rfl
    · exact Option.map_id'
  have hinstalled : (h.keep d i).installed = h.installed := rfl
  rw [exhibit?, hinstalled]
  by_cases ht : d.topic = topic
  · rw [if_pos ht, ← ht, hi, Option.bind_some, hget, if_pos rfl, ha]
    rfl
  · rw [if_neg ht, exhibit?]
    cases hj : h.installed.find? topic with
    | none => rfl
    | some j =>
      have hother : i.accessory ≠ j.accessory := fun heq =>
        ht (ho.distinct d.topic topic i j hi hj heq)
      rw [Option.bind_some, Option.bind_some, hget, if_neg hother]

theorem exhibit?_of_erase {h h' : Hub} {t : String}
    (hinstalled : h'.installed = h.installed.erase t) (hinventory : h'.inventory = h.inventory)
    (topic : String) : h'.exhibit? topic = if t = topic then none else h.exhibit? topic := by
  rw [exhibit?, hinstalled, hinventory, SortedMap.find?_erase]
  by_cases ht : t = topic
  · rw [if_pos ht, if_pos ht, Option.bind_none]
  · rw [if_neg ht, if_neg ht, exhibit?]

/-- An event changes what stands for its own topic, and nothing else. -/
theorem exhibit?_handle {h : Hub} (ho : h.Orderly) (hq : h.Quiet) (e : Event) (topic : String) :
    (h.handle e).exhibit? topic =
      if e.device.topic = topic then Exhibit.after (h.exhibit? topic) e
      else h.exhibit? topic := by
  cases e with
  | updated d =>
    show (h.deviceUpdated d).exhibit? topic =
      if d.topic = topic then Exhibit.after (h.exhibit? topic) (.updated d) else h.exhibit? topic
    rw [deviceUpdated]
    cases hi : h.installed.find? d.topic with
    | none =>
      dsimp only
      rw [exhibit?_of_arrival ho (installed_install ..) (inventory_install_of_quiet hq d)]
      refine if_ctx_congr Iff.rfl (fun ht => ?_) fun _ => rfl
      rw [← ht, exhibit?_of_not_installed hi]
      rfl
    | some i =>
      obtain ⟨a, ha, hexhibit⟩ := exhibit?_of_installed ho hi
      dsimp only
      rw [fits_eq_of_get? ha]
      by_cases hfits : (⟨a, i.bindings⟩ : Exhibit).fits d.blueprint = true
      · rw [if_pos hfits, exhibit?_keep ho hi ha]
        refine if_ctx_congr Iff.rfl (fun ht => ?_) fun _ => rfl
        rw [← ht, hexhibit, Exhibit.after]
        dsimp only
        rw [if_pos hfits]
      · rw [if_neg hfits,
          exhibit?_of_arrival ho (installed_renew ..) (inventory_renew_of_quiet hq d i)]
        refine if_ctx_congr Iff.rfl (fun ht => ?_) fun _ => rfl
        rw [← ht, hexhibit, Exhibit.after]
        dsimp only
        rw [if_neg hfits]
  | removed d =>
    show (h.deviceRemoved d).exhibit? topic =
      if d.topic = topic then none else h.exhibit? topic
    rw [deviceRemoved]
    cases hi : h.installed.find? d.topic with
    | none =>
      dsimp only
      by_cases ht : d.topic = topic
      · rw [if_pos ht, ← ht, exhibit?_of_not_installed hi]
      · rw [if_neg ht]
    | some i =>
      exact exhibit?_of_erase (installed_teardown ..) (inventory_teardown_of_quiet hq d i) topic

/-- The bridge counts the request of an event, if there is one. -/
theorem asked_handle {h : Hub} (ho : h.Orderly) (e : Event) (q : Bridge.Request) :
    (h.handle e).bridge.asked q =
      h.bridge.asked q + (Exhibit.request? (h.exhibit? e.device.topic) e).toList.count q := by
  cases e with
  | updated d =>
    show (h.deviceUpdated d).bridge.asked q =
      h.bridge.asked q + (Exhibit.request? (h.exhibit? d.topic) (.updated d)).toList.count q
    rw [deviceUpdated]
    cases hi : h.installed.find? d.topic with
    | none =>
      dsimp only
      rw [bridge_install, exhibit?_of_not_installed hi]
      cases q <;> rfl
    | some i =>
      obtain ⟨a, ha, hexhibit⟩ := exhibit?_of_installed ho hi
      dsimp only
      rw [fits_eq_of_get? ha, hexhibit, Exhibit.request?]
      by_cases hfits : (⟨a, i.bindings⟩ : Exhibit).fits d.blueprint = true
      · rw [if_pos hfits, if_pos hfits]
        rfl
      · rw [if_neg hfits, if_neg hfits, bridge_renew]
        cases q <;> rfl
  | removed d =>
    show (h.deviceRemoved d).bridge.asked q =
      h.bridge.asked q + (Exhibit.request? (h.exhibit? d.topic) (.removed d)).toList.count q
    rw [deviceRemoved]
    cases hi : h.installed.find? d.topic with
    | none =>
      dsimp only
      rw [exhibit?_of_not_installed hi]
      rfl
    | some i =>
      obtain ⟨a, ha, hexhibit⟩ := exhibit?_of_installed ho hi
      dsimp only
      rw [hexhibit, teardown]
      dsimp only
      rw [bridge_detach]
      cases q <;> rfl

end Hub
end HomeSync
