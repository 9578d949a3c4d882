import HomeSync.Adapter.Hub
import HomeSync.Proofs.Adapter.Blueprint
import HomeSync.Proofs.Bus.Wires

/-
What the hub does when it takes in a change.

Attaching and detaching come down to following a list of features, which adds
subscriptions and hands on reports but leaves all else alone.  A change is taken
in in one of five ways, and each is described by what becomes of the installed
accessories, of the inventory and of the bus.
-/
namespace HomeSync

/-! ## Following features -/

namespace Binding

/-- The subscription that a feature needs to be shown by an accessory. -/
def wire (n : Nat) (b : Binding) : Subscription :=
  ⟨b.feature.getTopic, .characteristic n b.typeCode⟩

end Binding

namespace Hub

def followAll (h : Hub) (l : List (Nat × Binding)) : Hub :=
  l.foldl (fun h p => h.follow p.1 p.2) h

/-- The features to follow again after the topics of an accessory were
unsubscribed. -/
def restored (leaving : Installed) (remaining : List Installed) : List (Nat × Binding) :=
  remaining.flatMap fun i =>
    (i.bindings.filter fun b => (reportTopics leaving).contains b.feature.getTopic).map
      (i.accessory, ·)

theorem follow_of_attached (h : Hub) (n : Nat) {b : Binding} (hb : b.feature.isAttached = true) :
    h.follow n b =
      { h with
        bus := h.bus.register b.feature.getTopic (.characteristic n b.typeCode)
        inventory := (h.bus.retainedFor b.feature.getTopic).foldl
          (fun inv m => inv.report n b.typeCode m.text) h.inventory } := by
  rw [follow, Feature.reportFilter, Feature.whenAttached, if_pos hb]
  rfl

theorem follow_of_detached (h : Hub) (n : Nat) {b : Binding} (hb : ¬ b.feature.isAttached = true) :
    h.follow n b = h := by
  rw [follow, Feature.reportFilter, Feature.whenAttached, if_neg hb]

theorem attach_eq_followAll (h : Hub) (i : Installed) :
    h.attach i = h.followAll (i.bindings.map (i.accessory, ·)) := by
  rw [attach, followAll, List.foldl_map]

/-- An accessory without features has no topics to unsubscribe, and then nothing
is restored either. -/
theorem detach_eq_followAll (h : Hub) (leaving : Installed)
    (remaining : SortedMap String Installed) :
    h.detach leaving remaining =
      { h with bus := h.bus.unsubscribe (reportTopics leaving) }.followAll
        (restored leaving remaining.values) := by
  rw [detach]
  by_cases hempty : (reportTopics leaving).isEmpty = true
  · -- the bus is not asked at all, which comes to the same as unsubscribing nothing
    rw [if_pos hempty, List.isEmpty_iff.mp hempty]
    have hnone : restored leaving remaining.values = [] := by
      simp [restored, List.isEmpty_iff.mp hempty]
    rw [hnone, Bus.unsubscribe_nil]
    rfl
  · rw [if_neg hempty, followAll, restored, List.foldl_flatMap]
    simp only [List.foldl_map]

theorem mem_bindings_of_mem_restored {leaving : Installed} {remaining : List Installed}
    {p : Nat × Binding} (hp : p ∈ restored leaving remaining) :
    ∃ i ∈ remaining, p.1 = i.accessory ∧ p.2 ∈ i.bindings := by
  obtain ⟨i, hi, hmem⟩ := List.mem_flatMap.mp hp
  obtain ⟨b, hb, rfl⟩ := List.mem_map.mp hmem
  exact ⟨i, hi, rfl, (List.mem_filter.mp hb).1⟩

/-! ## What following leaves alone -/

section Follow

variable (h : Hub) (n : Nat) (b : Binding)

/-- Only attached features can be subscribed to; any other is passed over. -/
theorem follow_cases {P : Hub → Prop} (hpassed : P h)
    (htaken : P { h with
      bus := h.bus.register b.feature.getTopic (.characteristic n b.typeCode)
      inventory := (h.bus.retainedFor b.feature.getTopic).foldl
        (fun inv m => inv.report n b.typeCode m.text) h.inventory }) :
    P (h.follow n b) := by
  by_cases hb : b.feature.isAttached = true
  · rw [follow_of_attached h n hb]
    exact htaken
  · rw [follow_of_detached h n hb]
    exact hpassed

theorem installed_follow : (h.follow n b).installed = h.installed :=
  follow_cases h n b (P := fun g => g.installed = h.installed) rfl rfl

theorem clients_follow : (h.follow n b).bus.clients = h.bus.clients :=
  follow_cases h n b (P := fun g => g.bus.clients = h.bus.clients) rfl rfl

theorem bridge_follow : (h.follow n b).bridge = h.bridge :=
  follow_cases h n b (P := fun g => g.bridge = h.bridge) rfl rfl

theorem next_foldl_report (code : String) (messages : List Message) (inv : Inventory) :
    (messages.foldl (fun inv m => inv.report n code m.text) inv).next = inv.next :=
  List.foldlRecOn (motive := fun inv' : Inventory => inv'.next = inv.next) messages _ rfl
    fun _ hnext _ _ => (List.length_modify ..).trans hnext

theorem next_follow : (h.follow n b).inventory.next = h.inventory.next :=
  follow_cases h n b (P := fun g => g.inventory.next = h.inventory.next) rfl
    (next_foldl_report n b.typeCode _ h.inventory)

theorem faces_foldl_report {code : String} (hcode : code ≠ TypeCode.reachable)
    (messages : List Message) (inv : Inventory) :
    (messages.foldl (fun inv m => inv.report n code m.text) inv).faces = inv.faces :=
  List.foldlRecOn (motive := fun inv' : Inventory => inv'.faces = inv.faces) messages _ rfl
    fun inv' hfaces _ _ => (Inventory.faces_report hcode inv' n _).trans hfaces

theorem faces_follow (hcode : b.typeCode ≠ TypeCode.reachable) :
    (h.follow n b).inventory.faces = h.inventory.faces :=
  follow_cases h n b (P := fun g => g.inventory.faces = h.inventory.faces) rfl
    (faces_foldl_report n hcode _ h.inventory)

theorem shielded_follow (hcode : b.typeCode ≠ TypeCode.reachable) (hbus : h.bus.Shielded) :
    (h.follow n b).bus.Shielded :=
  follow_cases h n b (P := fun g => g.bus.Shielded) hbus
    (Bus.shielded_register hbus _ (by simpa [Receiver.isFlag] using hcode))

theorem wires_follow (hb : b.feature.isAttached = true) :
    (h.follow n b).bus.wires = h.bus.wires ++ [b.wire n] := by
  rw [follow_of_attached h n hb]
  exact Bus.wires_register ..

end Follow

/-- What every feature of a list keeps when it is followed, following them all keeps. -/
theorem followAll_keeps {α : Type} (f : Hub → α) {l : List (Nat × Binding)}
    (hkept : ∀ p ∈ l, ∀ h : Hub, f (h.follow p.1 p.2) = f h) (h : Hub) :
    f (h.followAll l) = f h :=
  List.foldlRecOn (motive := fun g => f g = f h) l _ rfl
    fun g hg p hp => (hkept p hp g).trans hg

theorem installed_followAll (l : List (Nat × Binding)) (h : Hub) :
    (h.followAll l).installed = h.installed :=
  followAll_keeps installed (fun p _ g => installed_follow g p.1 p.2) h

theorem clients_followAll (l : List (Nat × Binding)) (h : Hub) :
    (h.followAll l).bus.clients = h.bus.clients :=
  followAll_keeps (fun g => g.bus.clients) (fun p _ g => clients_follow g p.1 p.2) h

theorem bridge_followAll (l : List (Nat × Binding)) (h : Hub) :
    (h.followAll l).bridge = h.bridge :=
  followAll_keeps bridge (fun p _ g => bridge_follow g p.1 p.2) h

theorem next_followAll (l : List (Nat × Binding)) (h : Hub) :
    (h.followAll l).inventory.next = h.inventory.next :=
  followAll_keeps (fun g => g.inventory.next) (fun p _ g => next_follow g p.1 p.2) h

theorem faces_followAll {l : List (Nat × Binding)}
    (hcode : ∀ p ∈ l, p.2.typeCode ≠ TypeCode.reachable) (h : Hub) :
    (h.followAll l).inventory.faces = h.inventory.faces :=
  followAll_keeps (fun g => g.inventory.faces)
    (fun p hp g => faces_follow g p.1 p.2 (hcode p hp)) h

theorem shielded_followAll {l : List (Nat × Binding)}
    (hcode : ∀ p ∈ l, p.2.typeCode ≠ TypeCode.reachable) {h : Hub} (hbus : h.bus.Shielded) :
    (h.followAll l).bus.Shielded :=
  List.foldlRecOn (motive := fun g : Hub => g.bus.Shielded) l _ hbus
    fun g hg p hp => shielded_follow g p.1 p.2 (hcode p hp) hg

theorem wires_followAll {l : List (Nat × Binding)}
    (hattached : ∀ p ∈ l, p.2.feature.isAttached = true) (h : Hub) :
    (h.followAll l).bus.wires = h.bus.wires ++ l.map fun p => p.2.wire p.1 := by
  induction l generalizing h with
  | nil => exact (List.append_nil _).symm
  | cons p rest ih =>
    have hrest := ih (fun p' hp' => hattached p' (List.mem_cons_of_mem p hp')) (h.follow p.1 p.2)
    rw [wires_follow h p.1 p.2 (hattached p List.mem_cons_self), List.append_assoc] at hrest
    exact hrest

/-! ## The ways to take in a change -/

/-- The state that a change leads to. -/
inductive Takes (h : Hub) : Event → Hub → Prop
  | install {d : Device} : h.installed.find? d.topic = none → Takes h (.updated d) (h.install d)
  | keep {d : Device} {i : Installed} :
      h.installed.find? d.topic = some i → h.fits i d.blueprint = true →
      Takes h (.updated d) (h.keep d i)
  | renew {d : Device} {i : Installed} :
      h.installed.find? d.topic = some i → Takes h (.updated d) (h.renew d i)
  | ignore {d : Device} : h.installed.find? d.topic = none → Takes h (.removed d) h
  | teardown {d : Device} {i : Installed} :
      h.installed.find? d.topic = some i → Takes h (.removed d) (h.teardown d i)

theorem takes_handle (h : Hub) (e : Event) : h.Takes e (h.handle e) := by
  cases e with
  | updated d =>
    show h.Takes _ (h.deviceUpdated d)
    rw [deviceUpdated]
    cases hfind : h.installed.find? d.topic with
    | none => exact .install hfind
    | some i =>
      dsimp only
      by_cases hfits : h.fits i d.blueprint = true
      · rw [if_pos hfits]
        exact .keep hfind hfits
      · rw [if_neg hfits]
        exact .renew hfind
  | removed d =>
    show h.Takes _ (h.deviceRemoved d)
    rw [deviceRemoved]
    cases hfind : h.installed.find? d.topic with
    | none => exact .ignore hfind
    | some i => exact .teardown hfind

/-! ## Order among the installed accessories -/

/-- Every installed accessory is in the inventory under a number of its own and
shows the features of some device. -/
structure Orderly (h : Hub) : Prop where
  made : ∀ topic i, h.installed.find? topic = some i → ∃ d : Device, i.bindings = d.bindings
  numbered : ∀ topic i, h.installed.find? topic = some i → i.accessory < h.inventory.next
  distinct : ∀ topic topic' i i', h.installed.find? topic = some i →
    h.installed.find? topic' = some i' → i.accessory = i'.accessory → topic = topic'

/-- The accessory that an update brings, under the next number. -/
def arrival (h : Hub) (d : Device) : Installed := ⟨h.inventory.next, d.bindings⟩

/-- The hub with the accessory that an update brings in its inventory. -/
def stocked (h : Hub) (d : Device) : Hub :=
  h.build (d.blueprint.accessory.setReachable d.reachable)

theorem typeCode_ne_arrival (h : Hub) (d : Device) :
    ∀ b ∈ (h.arrival d).bindings, b.typeCode ≠ TypeCode.reachable := by
  intro b hb
  exact Device.typeCode_ne_of_mem_bindings (d := d) hb

theorem typeCode_ne_of_orderly {h : Hub} (ho : h.Orderly) {topic : String} {i : Installed}
    (hfind : h.installed.find? topic = some i) :
    ∀ b ∈ i.bindings, b.typeCode ≠ TypeCode.reachable := by
  intro b hb
  obtain ⟨d, hd⟩ := ho.made topic i hfind
  rw [hd] at hb
  exact Device.typeCode_ne_of_mem_bindings hb

theorem orderly_of_eq {h h' : Hub} (ho : h.Orderly) (hinstalled : h'.installed = h.installed)
    (hnext : h'.inventory.next = h.inventory.next) : h'.Orderly := by
  obtain ⟨hmade, hnumbered, hdistinct⟩ := ho
  constructor
  · rwa [hinstalled]
  · rwa [hinstalled, hnext]
  · rwa [hinstalled]

theorem orderly_of_erase {h h' : Hub} (ho : h.Orderly) {topic : String}
    (hinstalled : h'.installed = h.installed.erase topic)
    (hnext : h'.inventory.next = h.inventory.next) : h'.Orderly := by
  have hold : ∀ t i, h'.installed.find? t = some i → h.installed.find? t = some i := by
    intro t i hfind
    rw [hinstalled, SortedMap.find?_erase_eq_some_iff] at hfind
    exact hfind.2
  constructor
  · exact fun t i hfind => ho.made t i (hold t i hfind)
  · rw [hnext]
    exact fun t i hfind => ho.numbered t i (hold t i hfind)
  · exact fun t t' i i' hfind hfind' => ho.distinct t t' i i' (hold t i hfind) (hold t' i' hfind')

theorem orderly_of_insert {h h' : Hub} (ho : h.Orderly) {d : Device}
    (hinstalled : h'.installed = h.installed.insert d.topic (h.arrival d))
    (hnext : h'.inventory.next = h.inventory.next + 1) : h'.Orderly := by
  have hcases : ∀ t i, h'.installed.find? t = some i →
      (d.topic = t ∧ h.arrival d = i) ∨ (d.topic ≠ t ∧ h.installed.find? t = some i) := by
    intro t i hfind
    rw [hinstalled] at hfind
    exact SortedMap.find?_insert_eq_some_iff.mp hfind
  constructor
  · intro t i hfind
    rcases hcases t i hfind with ⟨-, rfl⟩ | ⟨-, hold⟩
    · exact ⟨d, rfl⟩
    · exact ho.made t i hold
  · intro t i hfind
    rw [hnext]
    rcases hcases t i hfind with ⟨-, rfl⟩ | ⟨-, hold⟩
    · exact Nat.lt_succ_self _
    · exact Nat.lt_succ_of_lt (ho.numbered t i hold)
  · intro t t' i i' hfind hfind' hsame
    rcases hcases t i hfind with ⟨ht, rfl⟩ | ⟨-, hold⟩ <;>
      rcases hcases t' i' hfind' with ⟨ht', rfl⟩ | ⟨-, hold'⟩
    · exact ht.symm.trans ht'
    · exact absurd (ho.numbered t' i' hold') (by rw [← hsame]; exact Nat.lt_irrefl _)
    · exact absurd (ho.numbered t i hold) (by rw [hsame]; exact Nat.lt_irrefl _)
    · exact ho.distinct t t' i i' hold hold' hsame

/-! ## The states after a change -/

section States

variable (h : Hub) (d : Device) (i : Installed)

theorem installed_stocked : (h.stocked d).installed = h.installed := rfl

theorem installed_attach : (h.attach i).installed = h.installed := by
  rw [attach_eq_followAll, installed_followAll]

theorem installed_detach (remaining : SortedMap String Installed) :
    (h.detach i remaining).installed = h.installed := by
  rw [detach_eq_followAll, installed_followAll]

theorem install_eq :
    h.install d =
      { (h.stocked d).attach (h.arrival d) with
        bridge := ((h.stocked d).attach (h.arrival d)).bridge.add d.blueprint.accessory.id
          h.inventory.next
        installed := ((h.stocked d).attach (h.arrival d)).installed.insert d.topic
          (h.arrival d) } := by
  rw [install, arrival, stocked, Device.bindings_blueprint]

theorem renew_eq :
    h.renew d i =
      let changed := ((h.stocked d).detach i (h.installed.erase d.topic)).attach (h.arrival d)
      { changed with
        bridge := changed.bridge.replace d.blueprint.accessory.id h.inventory.next
        installed := changed.installed.insert d.topic (h.arrival d) } := by
  rw [renew, arrival, stocked, Device.bindings_blueprint]
  rfl

theorem installed_install :
    (h.install d).installed = h.installed.insert d.topic (h.arrival d) := by
  rw [install_eq, installed_attach, installed_stocked]

theorem inventory_install :
    (h.install d).inventory = ((h.stocked d).attach (h.arrival d)).inventory := by
  rw [install_eq]

theorem bus_install : (h.install d).bus = ((h.stocked d).attach (h.arrival d)).bus := by
  rw [install_eq]

theorem installed_renew :
    (h.renew d i).installed = h.installed.insert d.topic (h.arrival d) := by
  rw [renew_eq]
  dsimp only
  rw [installed_attach, installed_detach, installed_stocked]

theorem inventory_renew : (h.renew d i).inventory =
    (((h.stocked d).detach i (h.installed.erase d.topic)).attach (h.arrival d)).inventory := by
  rw [renew_eq]

theorem bus_renew : (h.renew d i).bus =
    (((h.stocked d).detach i (h.installed.erase d.topic)).attach (h.arrival d)).bus := by
  rw [renew_eq]

theorem bridge_attach : (h.attach i).bridge = h.bridge := by
  rw [attach_eq_followAll, bridge_followAll]

theorem bridge_detach (remaining : SortedMap String Installed) :
    (h.detach i remaining).bridge = h.bridge := by
  rw [detach_eq_followAll, bridge_followAll]

theorem bridge_install :
    (h.install d).bridge = h.bridge.add d.blueprint.accessory.id h.inventory.next := by
  rw [install_eq]
  dsimp only
  rw [bridge_attach]
  rfl

theorem bridge_renew :
    (h.renew d i).bridge = h.bridge.replace d.blueprint.accessory.id h.inventory.next := by
  rw [renew_eq]
  dsimp only
  rw [bridge_attach, bridge_detach]
  rfl

theorem installed_teardown : (h.teardown d i).installed = h.installed.erase d.topic := rfl

theorem next_detach (remaining : SortedMap String Installed) :
    (h.detach i remaining).inventory.next = h.inventory.next := by
  rw [detach_eq_followAll, next_followAll]

theorem next_attach : (h.attach i).inventory.next = h.inventory.next := by
  rw [attach_eq_followAll, next_followAll]

theorem next_stocked : (h.stocked d).inventory.next = h.inventory.next + 1 :=
  List.length_append

theorem next_install : (h.install d).inventory.next = h.inventory.next + 1 := by
  rw [inventory_install, next_attach, next_stocked]

theorem next_renew : (h.renew d i).inventory.next = h.inventory.next + 1 := by
  rw [inventory_renew, next_attach, next_detach, next_stocked]

theorem next_keep : (h.keep d i).inventory.next = h.inventory.next := List.length_modify ..

theorem next_teardown : (h.teardown d i).inventory.next = h.inventory.next :=
  next_detach h i _

end States

theorem orderly_of_takes {h h' : Hub} {e : Event} (ho : h.Orderly) (ht : h.Takes e h') :
    h'.Orderly := by
  cases ht with
  | install hnew => exact orderly_of_insert ho (installed_install ..) (next_install ..)
  | keep hfind hfits => exact orderly_of_eq ho rfl (next_keep ..)
  | renew hfind => exact orderly_of_insert ho (installed_renew ..) (next_renew ..)
  | ignore hnone => exact ho
  | teardown hfind => exact orderly_of_erase ho (installed_teardown ..) (next_teardown ..)

end Hub
end HomeSync
