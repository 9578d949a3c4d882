import HomeSync.Proofs.Adapter.Foreign
import HomeSync.Proofs.House.Moves

/-
What becomes of routers and clients while the adapter follows the devices.

Devices choose the topics of their features freely, so a device can name a topic
that a router or a client listens on.  That does no harm as long as the device is
there.  When its accessory is removed or replaced, the listener is cut off.
-/
namespace HomeSync
namespace House

theorem hub_tell (h : House) (events : List Event) :
    h.run (events.map .tell) = { h with hub := events.foldl Hub.handle h.hub } := by
  induction events generalizing h with
  | nil => rfl
  | cons e rest ih => exact ih (h.step (.tell e))

/-- Whatever devices the adapter is told of, the subscriptions of the others stay
in their order, with their filters and receivers, except for those under the topics
that the changes cut.  Nothing else changes for clients and routers. -/
theorem foreign_after_changes (h : House) (events : List Event) :
    let h' := h.run (events.map .tell)
    h'.hub.bus.foreign =
      h.hub.bus.foreign.filter (fun s => !(h.hub.cuts events).contains s.filter) ∧
    h'.hub.bus.clients = h.hub.bus.clients ∧ h'.routers = h.routers := by
  intro h'
  have hrun : h' = { h with hub := events.foldl Hub.handle h.hub } := hub_tell h events
  rw [hrun]
  exact ⟨Hub.foreign_foldl_handle events h.hub, Hub.clients_foldl_handle events h.hub, rfl⟩

/-- A device that reports on the topic of leave messages. -/
def intruder : Device :=
  { ({ topic := "hall/plug" } : Device).addFeature "on" { getTopic := "leave" } with
    deviceType := "outlet" }

/-- When a device goes that reports on the topic of leave messages, no router hears
a leave message any more. -/
theorem teardown_cuts_router :
    let h := (House.create false {}).run [.start {}, .tell (.updated intruder)]
    let s : Subscription := ⟨"leave", .departures 0⟩
    s ∈ h.hub.bus.foreign ∧ s ∉ (h.step (.tell (.removed intruder))).hub.bus.subscriptions := by
  decide +kernel

end House
end HomeSync
