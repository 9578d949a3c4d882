import HomeSync.Proofs.Adapter.Steps
import Mathlib.Data.List.Nodup

/-
The characteristics are subscribed exactly as the installed accessories say.

The wires of an accessory are the subscriptions that its features need, one for
each.  Detaching an accessory cuts every wire on its topics and puts those of the
others back, so up to their order the wires on the bus are those of the installed
accessories.  Characteristics are told apart by the number of their accessory and
by their type, so none is subscribed twice.
-/
namespace HomeSync

namespace Installed

/-- The subscriptions that an accessory needs. -/
def wires (i : Installed) : List Subscription := i.bindings.map fun b => b.wire i.accessory

end Installed

namespace Hub

/-- The wires on the bus are those of the installed accessories. -/
structure Wired (h : Hub) : Prop where
  attached : ∀ topic i, h.installed.find? topic = some i → ∀ b ∈ i.bindings,
    b.feature.isAttached = true
  wires : h.bus.wires.Perm (h.installed.values.flatMap Installed.wires)

theorem wires_attach {i : Installed} (hattached : ∀ b ∈ i.bindings, b.feature.isAttached = true)
    (h : Hub) : (h.attach i).bus.wires = h.bus.wires ++ i.wires := by
  have hall : ∀ p ∈ i.bindings.map (i.accessory, ·), p.2.feature.isAttached = true := by
    intro p hp
    obtain ⟨b, hb, rfl⟩ := List.mem_map.mp hp
    exact hattached b hb
  rw [attach_eq_followAll, wires_followAll hall, List.map_map]
  rfl

/-- What is restored are the wires of the remaining accessories that were cut. -/
theorem map_wire_restored (leaving : Installed) (remaining : List Installed) :
    (restored leaving remaining).map (fun p => p.2.wire p.1) =
      (remaining.flatMap Installed.wires).filter
        fun s => (reportTopics leaving).contains s.filter := by
  rw [restored, List.map_flatMap, List.filter_flatMap]
  apply List.flatMap_congr
  intro i _
  rw [List.map_map, Installed.wires, List.filter_map]
  rfl

theorem filter_wires_self (i : Installed) :
    i.wires.filter (fun s => !(reportTopics i).contains s.filter) = [] := by
  rw [List.filter_eq_nil_iff]
  intro s hs
  obtain ⟨b, hb, rfl⟩ := List.mem_map.mp hs
  have hmem : b.feature.getTopic ∈ reportTopics i := List.mem_map_of_mem hb
  simpa [Binding.wire] using hmem

/-- Detaching an accessory takes its wires away and no other. -/
theorem wires_detach_perm {h : Hub} {leaving : Installed}
    {remaining : SortedMap String Installed}
    (hattached : ∀ i ∈ remaining.values, ∀ b ∈ i.bindings, b.feature.isAttached = true)
    (hwires : h.bus.wires.Perm (leaving.wires ++ remaining.values.flatMap Installed.wires)) :
    (h.detach leaving remaining).bus.wires.Perm (remaining.values.flatMap Installed.wires) := by
  have hall : ∀ p ∈ restored leaving remaining.values, p.2.feature.isAttached = true := by
    intro p hp
    obtain ⟨i, hi, -, hb⟩ := mem_bindings_of_mem_restored hp
    exact hattached i hi p.2 hb
  rw [detach_eq_followAll, wires_followAll hall, map_wire_restored]
  show ((h.bus.unsubscribe (reportTopics leaving)).wires ++ _).Perm _
  rw [Bus.wires_unsubscribe]
  -- what stays on the bus is not the leaving accessory's, and what is put back is the rest
  have hkept := hwires.filter fun s => !(reportTopics leaving).contains s.filter
  rw [List.filter_append, filter_wires_self, List.nil_append] at hkept
  refine (hkept.append_right _).trans ?_
  exact List.perm_append_comm.trans (List.filter_append_perm _ _)

/-! ## Taking in a change -/

theorem attached_of_mem_erase {h : Hub} (hw : h.Wired) (topic : String) :
    ∀ i ∈ (h.installed.erase topic).values, ∀ b ∈ i.bindings, b.feature.isAttached = true := by
  intro i hi
  obtain ⟨t, -, ht⟩ := SortedMap.find?_of_mem_values_erase hi
  exact hw.attached t i ht

/-- The wires without those of one accessory. -/
theorem wires_perm_erase {h : Hub} (hw : h.Wired) {topic : String} {i : Installed}
    (hfind : h.installed.find? topic = some i) :
    h.bus.wires.Perm (i.wires ++ (h.installed.erase topic).values.flatMap Installed.wires) := by
  have hvalues := (SortedMap.values_erase_perm hfind).flatMap_right Installed.wires
  rw [List.flatMap_cons] at hvalues
  exact hw.wires.trans hvalues

/-- A new accessory is wired once the others are. -/
theorem wired_of_arrival {h h' : Hub} (hw : h.Wired) {d : Device} (hd : d.Attached)
    (hinstalled : h'.installed = h.installed.insert d.topic (h.arrival d))
    (hwires : h'.bus.wires.Perm
      ((h.installed.erase d.topic).values.flatMap Installed.wires ++ (h.arrival d).wires)) :
    h'.Wired := by
  constructor
  · intro topic i hi
    rw [hinstalled, SortedMap.find?_insert_eq_some_iff] at hi
    rcases hi with ⟨-, rfl⟩ | ⟨-, hi⟩
    · exact fun b hb => Device.isAttached_of_mem_bindings hd hb
    · exact hw.attached topic i hi
  · have hvalues := (SortedMap.values_insert_perm h.installed d.topic (h.arrival d)).flatMap_right
      Installed.wires
    rw [List.flatMap_cons] at hvalues
    rw [hinstalled]
    exact (hwires.trans List.perm_append_comm).trans hvalues.symm

theorem wires_install (h : Hub) {d : Device} (hd : d.Attached) :
    (h.install d).bus.wires = h.bus.wires ++ (h.arrival d).wires := by
  rw [bus_install, wires_attach (i := h.arrival d) fun b hb =>
    Device.isAttached_of_mem_bindings hd hb]
  rfl

theorem wires_renew_perm {h : Hub} (hw : h.Wired) {d : Device} (hd : d.Attached) {i : Installed}
    (hfind : h.installed.find? d.topic = some i) :
    (h.renew d i).bus.wires.Perm
      ((h.installed.erase d.topic).values.flatMap Installed.wires ++ (h.arrival d).wires) := by
  have hdetach : ((h.stocked d).detach i (h.installed.erase d.topic)).bus.wires.Perm
      ((h.installed.erase d.topic).values.flatMap Installed.wires) :=
    wires_detach_perm (attached_of_mem_erase hw d.topic) (wires_perm_erase hw hfind)
  rw [bus_renew, wires_attach (i := h.arrival d) fun b hb =>
    Device.isAttached_of_mem_bindings hd hb]
  exact hdetach.append_right _

theorem wired_of_takes {h h' : Hub} {e : Event} (hw : h.Wired)
    (hd : ∀ d, e = .updated d → d.Attached) (ht : h.Takes e h') : h'.Wired := by
  cases ht with
  | @install d hnew =>
    refine wired_of_arrival hw (hd d rfl) (installed_install ..) ?_
    rw [wires_install h (hd d rfl), SortedMap.erase_of_find?_none hnew]
    exact hw.wires.append_right _
  | keep hfind hfits => exact ⟨hw.attached, hw.wires⟩
  | @renew d i hfind =>
    exact wired_of_arrival hw (hd d rfl) (installed_renew ..) (wires_renew_perm hw (hd d rfl) hfind)
  | ignore hnone => exact hw
  | @teardown d i hfind =>
    constructor
    · intro topic j hj
      have hmem : j ∈ (h.installed.erase d.topic).values := SortedMap.mem_values_iff.mpr ⟨topic, hj⟩
      exact attached_of_mem_erase hw d.topic j hmem
    · exact wires_detach_perm (attached_of_mem_erase hw d.topic) (wires_perm_erase hw hfind)

theorem clients_of_takes {h h' : Hub} {e : Event} (ht : h.Takes e h') :
    h'.bus.clients = h.bus.clients := by
  have hattach : ∀ (g : Hub) (i : Installed), (g.attach i).bus.clients = g.bus.clients := by
    intro g i
    rw [attach_eq_followAll, clients_followAll]
  have hdetach : ∀ (g : Hub) (i : Installed) (remaining : SortedMap String Installed),
      (g.detach i remaining).bus.clients = g.bus.clients := by
    intro g i remaining
    rw [detach_eq_followAll, clients_followAll]
    rfl
  cases ht with
  | install hnew =>
    rw [bus_install, hattach]
    rfl
  | keep hfind hfits => rfl
  | renew hfind =>
    rw [bus_renew, hattach, hdetach]
    rfl
  | ignore hnone => rfl
  | teardown hfind => exact hdetach _ _ _

/-! ## No characteristic twice -/

theorem nodup_receivers_wires {h : Hub} (ho : h.Orderly) {topic : String} {i : Installed}
    (hfind : h.installed.find? topic = some i) : (i.wires.map (·.receiver)).Nodup := by
  obtain ⟨d, hd⟩ := ho.made topic i hfind
  have hcodes : (i.bindings.map Binding.typeCode).Nodup := by
    rw [hd]
    exact Device.nodup_bindings d
  have hreceivers : i.wires.map (·.receiver) =
      (i.bindings.map Binding.typeCode).map (Receiver.characteristic i.accessory) := by
    rw [Installed.wires, List.map_map, List.map_map]
    rfl
  rw [hreceivers]
  refine hcodes.map fun code code' heq => ?_
  exact (Receiver.characteristic.inj heq).2

theorem accessories_pairwise {h : Hub} (ho : h.Orderly) :
    h.installed.values.Pairwise fun i j => i.accessory ≠ j.accessory := by
  rw [SortedMap.values, List.pairwise_map]
  refine h.installed.sorted.imp_of_mem fun {a b} ha hb hlt heq => ?_
  have hsame : a.1 = b.1 :=
    ho.distinct a.1 b.1 a.2 b.2 (SortedMap.find?_eq_some_iff.mpr ha)
      (SortedMap.find?_eq_some_iff.mpr hb) heq
  rw [hsame] at hlt
  exact Std.lt_irrefl hlt

theorem nodup_receivers {h : Hub} (ho : h.Orderly) (hw : h.Wired) :
    (h.bus.wires.map (·.receiver)).Nodup := by
  rw [(hw.wires.map _).nodup_iff, List.map_flatMap, List.nodup_flatMap]
  -- one accessory has no type twice, and two accessories have no number in common
  constructor
  · intro i hi
    obtain ⟨topic, hfind⟩ := SortedMap.mem_values_iff.mp hi
    exact nodup_receivers_wires ho hfind
  · refine (accessories_pairwise ho).imp fun {i j} hne => ?_
    intro r hi hj
    obtain ⟨s, hs, rfl⟩ := List.mem_map.mp hi
    obtain ⟨b, -, rfl⟩ := List.mem_map.mp hs
    obtain ⟨s', hs', hr⟩ := List.mem_map.mp hj
    obtain ⟨b', -, rfl⟩ := List.mem_map.mp hs'
    exact hne (Receiver.characteristic.inj hr).1.symm

end Hub
end HomeSync
