import HomeSync.Proofs.House.Routing

/-
Routers that are awake.

Whoever puts a message into an inbox wakes the router, and only working off the whole inbox
puts the router to sleep again.  So a router with a message to apply is awake, and once all
that are awake have worked off their inboxes no message waits anywhere.
-/
namespace HomeSync
namespace House

variable {h : House}

/-! ## Staying awake -/

theorem mem_awake_send {n : Nat} (hn : n ∈ h.awake) (router : Nat) (i : Inbound) :
    n ∈ (h.send router i).awake := by
  rw [House.send]
  split
  · exact hn
  · exact List.mem_append_left _ hn

theorem mem_awake_receive {n : Nat} (hn : n ∈ h.awake) (d : Delivery) :
    n ∈ (h.receive d).awake := by
  have hall : ∀ (router : Nat) (is : List Inbound), n ∈ (h.sendAll router is).awake :=
    fun router is => List.foldlRecOn (motive := fun h' : House => n ∈ h'.awake) is _ hn
      fun _ hmem i _ => mem_awake_send hmem router i
  rw [House.receive]
  split
  · exact hn
  · exact hall _ _
  · exact hall _ _
  · exact hn

/-- A publication puts no router to sleep. -/
theorem mem_awake_publish {n : Nat} (hn : n ∈ h.awake) (p : Publication) :
    n ∈ (h.publish p).awake := by
  have hstart : n ∈ ({ h with hub.bus := (h.hub.bus.perform (.publish p)).1 } : House).awake := hn
  exact List.foldlRecOn (motive := fun h' : House => n ∈ h'.awake) _ receive hstart
    fun _ hmem d _ => mem_awake_receive hmem d

/-! ## Alarms -/

/-- What every publication of an alarm keeps holds when all that are due have rung. -/
theorem ring_induct {P : House → Prop}
    (hready : P { h with alarms := h.alarms.filter fun a => !(a.due ≤ h.clock) })
    (hpublish : ∀ h', ∀ a ∈ h.alarms, P h' → P (h'.publish a.publication)) : P h.ring := by
  have hmem : ∀ a ∈ h.due, a ∈ h.alarms := fun a ha =>
    (List.mem_filter.mp (List.mem_mergeSort.mp ha)).1
  exact List.foldlRecOn h.due _ hready fun h' hP a ha => hpublish h' a (hmem a ha) hP

/-- What has no part in alarms and is kept by publications is kept when they ring. -/
theorem ring_keeps {α : Type} (f : House → α) (hpublish : ∀ h p, f (publish h p) = f h)
    (halarms : ∀ (h : House) alarms, f { h with alarms } = f h) (h : House) : f h.ring = f h :=
  ring_induct (P := fun h' => f h' = f h) (halarms h _)
    fun h' a _ hP => (hpublish h' a.publication).trans hP

theorem alarms_ring (h : House) : h.ring.alarms = h.alarms.filter fun a => !(a.due ≤ h.clock) := by
  refine ring_induct (P := fun h' => h'.alarms = h.alarms.filter fun a => !(a.due ≤ h.clock)) rfl
    fun h' a _ hP => ?_
  exact (perform_keeps (·.alarms) (fun _ _ => rfl) (fun _ _ _ => rfl) (fun _ _ => rfl) h'
    (.publish a.publication)).trans hP

/-! ## Waking -/

/-- Every router with a message to apply is awake. -/
def Woken (h : House) : Prop := ∀ n r, h.routers[n]? = some r → r.inbox ≠ [] → n ∈ h.awake

theorem woken_of_eq {h' : House} (hw : h.Woken) (hrouters : h'.routers = h.routers)
    (hawake : h'.awake = h.awake) : h'.Woken := by
  intro n r hr hinbox
  rw [hrouters] at hr
  rw [hawake]
  exact hw n r hr hinbox

theorem woken_send (hw : h.Woken) (router : Nat) (i : Inbound) : (h.send router i).Woken := by
  intro n r hr hinbox
  by_cases hn : router = n
  · rw [send]
    split
    · rename_i hawake
      rw [← hn]
      exact List.contains_iff_mem.mp hawake
    · rw [← hn]
      exact List.mem_append_right _ (List.mem_singleton_self _)
  · have hsame : (h.send router i).routers[n]? = h.routers[n]? := by
      rw [send, List.getElem?_modify]
      simp [hn]
    rw [hsame] at hr
    exact mem_awake_send (hw n r hr hinbox) router i

theorem woken_receive (hw : h.Woken) (d : Delivery) : (h.receive d).Woken := by
  have hall : ∀ (router : Nat) (is : List Inbound), (h.sendAll router is).Woken :=
    fun router is => List.foldlRecOn is _ hw fun _ hw' i _ => woken_send hw' router i
  rw [House.receive]
  split
  · exact woken_of_eq hw rfl rfl
  · exact hall _ _
  · exact hall _ _
  · exact woken_of_eq hw rfl rfl

theorem woken_perform (hw : h.Woken) (op : Operation) : (h.perform op).Woken := by
  have hstart : ({ h with hub.bus := (h.hub.bus.perform op).1 } : House).Woken :=
    woken_of_eq hw rfl rfl
  exact List.foldlRecOn (h.hub.bus.perform op).2 _ hstart fun _ hw' d _ => woken_receive hw' d

/-- All routers that are awake work off their inboxes. -/
def workOff (h : House) : House := h.awake.foldl routeAll { h with awake := [] }

/-- Routing changes the registry and inboxes, and nothing else. -/
theorem foldl_routeAll_keeps {α : Type} (f : House → α)
    (hroute : ∀ (h : House) registry routers, f { h with registry, routers } = f h)
    (ns : List Nat) (h : House) : f (ns.foldl routeAll h) = f h :=
  List.foldlRecOn (motive := fun h' => f h' = f h) ns routeAll rfl
    fun h' hsame _ _ => (hroute h' _ _).trans hsame

/-- Without an adapter there is nothing else to do once the alarms have rung. -/
theorem settle_eq (hstream : h.adapterStream = none) : h.settle = h.ring.workOff := by
  have hrung : h.ring.adapterStream = h.adapterStream :=
    ring_keeps (·.adapterStream) (fun h p => perform_keeps (·.adapterStream) (fun _ _ => rfl)
      (fun _ _ _ => rfl) (fun _ _ => rfl) h _) (fun _ _ => rfl) h
  have hnone : h.ring.workOff.adapterStream = none :=
    (foldl_routeAll_keeps (·.adapterStream) (fun _ _ _ => rfl) _ _).trans (hrung.trans hstream)
  show h.ring.workOff.handleAll = h.ring.workOff
  rw [handleAll, hnone]

theorem routers_foldl_routeAll (ns : List Nat) (h : House) (n : Nat) :
    (ns.foldl routeAll h).routers[n]? =
      h.routers[n]?.map fun r => if n ∈ ns then { r with inbox := [] } else r := by
  induction ns generalizing h with
  | nil => simp
  | cons k rest ih =>
    rw [List.foldl_cons, ih, routeAll, List.getElem?_modify]
    cases h.routers[n]? with
    | none => rfl
    | some r =>
      by_cases hk : k = n
      · simp [hk]
      · simp [hk, Ne.symm hk]

theorem awake_workOff (h : House) : h.workOff.awake = [] :=
  foldl_routeAll_keeps (·.awake) (fun _ _ _ => rfl) _ _

/-- Those who sleep have nothing to apply, and the others have done it. -/
theorem inbox_workOff (hw : h.Woken) {n : Nat} {r : Router} (hr : h.workOff.routers[n]? = some r) :
    r.inbox = [] := by
  rw [workOff, routers_foldl_routeAll] at hr
  obtain ⟨r', hr', rfl⟩ := Option.map_eq_some_iff.mp hr
  by_cases hn : n ∈ h.awake
  · rw [if_pos hn]
  · rw [if_neg hn]
    by_contra hinbox
    exact hn (hw n r' hr' hinbox)

theorem woken_workOff (hw : h.Woken) : h.workOff.Woken := fun _ _ hr hinbox =>
  absurd (inbox_workOff hw hr) hinbox

end House
end HomeSync
