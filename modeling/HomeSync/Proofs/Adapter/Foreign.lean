import HomeSync.Proofs.Adapter.Wiring

/-
The subscriptions of the other parties.

The adapter subscribes characteristics and nothing else, but when an accessory
goes it unsubscribes whole topics, and a bus knows no owners: whoever listens
under the same filter is cut off too.  The adapter puts back what it needs itself.
So all that a change does to the subscriptions of others is to take away those
under the topics of the accessory that it removes or replaces.
-/
namespace HomeSync

namespace Bus

/-- The subscriptions that are not the adapter's, oldest first. -/
def foreign (bus : Bus) : List Subscription :=
  bus.subscriptions.filter fun s => !s.receiver.isCharacteristic

theorem foreign_register (bus : Bus) (filter : String) {receiver : Receiver}
    (h : receiver.isCharacteristic = true) : (bus.register filter receiver).foreign = bus.foreign := by
  have hnone : [(⟨filter, receiver⟩ : Subscription)].filter
      (fun s => !s.receiver.isCharacteristic) = [] := by
    rw [List.filter_cons, h]
    rfl
  rw [foreign, register, List.filter_append, hnone, List.append_nil]
  rfl

theorem foreign_unsubscribe (bus : Bus) (filters : List String) :
    (bus.unsubscribe filters).foreign =
      bus.foreign.filter fun s => !filters.contains s.filter := by
  rw [foreign, foreign, unsubscribe, List.filter_filter, List.filter_filter]
  simp only [Bool.and_comm]

end Bus

namespace Hub

/-! ## The topics that a change cuts -/

/-- The topics that a change has unsubscribed: those of the accessory that it
removes or replaces, and none if there is no such accessory. -/
def cut (h : Hub) : Event → List String
  | .updated d =>
    match h.installed.find? d.topic with
    | some i => if h.fits i d.blueprint then [] else reportTopics i
    | none => []
  | .removed d =>
    match h.installed.find? d.topic with
    | some i => reportTopics i
    | none => []

/-- The topics that a list of changes has unsubscribed, one change after the
other. -/
def cuts (h : Hub) : List Event → List String
  | [] => []
  | e :: rest => h.cut e ++ (h.handle e).cuts rest

/-- The state that a change leads to, told by the topics that it cuts. -/
inductive Cutting (h : Hub) : Event → List String → Hub → Prop
  | install {d : Device} : h.installed.find? d.topic = none →
      Cutting h (.updated d) [] (h.install d)
  | keep {d : Device} {i : Installed} : h.installed.find? d.topic = some i →
      Cutting h (.updated d) [] (h.keep d i)
  | renew {d : Device} {i : Installed} : h.installed.find? d.topic = some i →
      Cutting h (.updated d) (reportTopics i) (h.renew d i)
  | ignore {d : Device} : Cutting h (.removed d) [] h
  | teardown {d : Device} {i : Installed} : h.installed.find? d.topic = some i →
      Cutting h (.removed d) (reportTopics i) (h.teardown d i)

theorem cutting_handle (h : Hub) (e : Event) : h.Cutting e (h.cut e) (h.handle e) := by
  cases e with
  | updated d =>
    show h.Cutting _ (h.cut (.updated d)) (h.deviceUpdated d)
    rw [cut, deviceUpdated]
    cases hfind : h.installed.find? d.topic with
    | none => exact .install hfind
    | some i =>
      dsimp only
      by_cases hfits : h.fits i d.blueprint = true
      · rw [if_pos hfits, if_pos hfits]
        exact .keep hfind
      · rw [if_neg hfits, if_neg hfits]
        exact .renew hfind
  | removed d =>
    show h.Cutting _ (h.cut (.removed d)) (h.deviceRemoved d)
    rw [cut, deviceRemoved]
    cases hfind : h.installed.find? d.topic with
    | none => exact .ignore
    | some i => exact .teardown hfind

/-! ## What is left of the others' subscriptions -/

theorem foreign_follow (h : Hub) (n : Nat) (b : Binding) :
    (h.follow n b).bus.foreign = h.bus.foreign :=
  follow_cases h n b (P := fun g => g.bus.foreign = h.bus.foreign) rfl
    (Bus.foreign_register h.bus _ rfl)

theorem foreign_followAll (l : List (Nat × Binding)) (h : Hub) :
    (h.followAll l).bus.foreign = h.bus.foreign :=
  followAll_keeps (fun g => g.bus.foreign) (fun p _ g => foreign_follow g p.1 p.2) h

theorem foreign_attach (h : Hub) (i : Installed) : (h.attach i).bus.foreign = h.bus.foreign := by
  rw [attach_eq_followAll, foreign_followAll]

theorem foreign_detach (h : Hub) (i : Installed) (remaining : SortedMap String Installed) :
    (h.detach i remaining).bus.foreign =
      h.bus.foreign.filter fun s => !(reportTopics i).contains s.filter := by
  rw [detach_eq_followAll, foreign_followAll]
  exact Bus.foreign_unsubscribe h.bus _

theorem foreign_of_cutting {h h' : Hub} {e : Event} {topics : List String}
    (hc : h.Cutting e topics h') :
    h'.bus.foreign = h.bus.foreign.filter fun s => !topics.contains s.filter := by
  have hnothing : h.bus.foreign.filter (fun s => !([] : List String).contains s.filter) =
      h.bus.foreign := List.filter_eq_self.mpr fun _ _ => rfl
  cases hc with
  | install hnew =>
    rw [hnothing, bus_install, foreign_attach]
    rfl
  | keep hfind => exact hnothing.symm
  | @renew d i hfind =>
    rw [bus_renew, foreign_attach, foreign_detach]
    rfl
  | ignore => exact hnothing.symm
  | @teardown d i hfind => exact foreign_detach h i _

theorem foreign_foldl_handle (events : List Event) (h : Hub) :
    (events.foldl handle h).bus.foreign =
      h.bus.foreign.filter fun s => !(h.cuts events).contains s.filter := by
  induction events generalizing h with
  | nil => exact (List.filter_eq_self.mpr fun _ _ => rfl).symm
  | cons e rest ih =>
    rw [List.foldl_cons, ih, foreign_of_cutting (cutting_handle h e), List.filter_filter, cuts]
    congr 1
    funext s
    rw [List.contains_append, Bool.not_or, Bool.and_comm]

theorem clients_foldl_handle (events : List Event) (h : Hub) :
    (events.foldl handle h).bus.clients = h.bus.clients := by
  induction events generalizing h with
  | nil => rfl
  | cons e rest ih => exact (ih (h.handle e)).trans (clients_of_takes (takes_handle h e))

end Hub
end HomeSync
