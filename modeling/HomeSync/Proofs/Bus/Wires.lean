import HomeSync.Bus.Run
import HomeSync.Catalog

/-
What the parties on a bus can do to the characteristics.

Characteristics are subscribed by the adapter alone.  Clients may do what they
like: they never get a characteristic to hear more than it did, and as long as
nobody unsubscribes every characteristic goes on hearing what it heard.
-/
namespace HomeSync

namespace Receiver

def isCharacteristic : Receiver → Bool
  | .characteristic _ _ => true
  | _ => false

/-- Whether a message for the receiver would reach the flag of an accessory. -/
def isFlag : Receiver → Bool
  | .characteristic _ typeCode => typeCode == TypeCode.reachable
  | _ => false

end Receiver

/-- Nothing is unsubscribed by an operation or by the reactions that come with
it. -/
inductive Operation.Tame : Operation → Prop
  | publish (p : Publication) : Tame (.publish p)
  | subscribe (filter name : String) {reactions : List (List Operation)} :
      (∀ ops ∈ reactions, ∀ op ∈ ops, Tame op) → Tame (.subscribe filter name reactions)

namespace Bus

/-- The subscriptions of characteristics, oldest first. -/
def wires (bus : Bus) : List Subscription :=
  bus.subscriptions.filter (·.receiver.isCharacteristic)

/-- No subscription reaches the flag of an accessory. -/
def Shielded (bus : Bus) : Prop := ∀ s ∈ bus.subscriptions, s.receiver.isFlag = false

/-- No client will ever unsubscribe anything. -/
def Tame (bus : Bus) : Prop := ∀ c ∈ bus.clients, ∀ ops ∈ c.reactions, ∀ op ∈ ops, op.Tame

/-- What every task keeps, of the bus and of the tasks that follow from it, holds
to the end. -/
theorem run_induct {P : Bus → Prop} {Q : Task → Prop}
    (hafter : ∀ bus t, P bus → Q t → P (bus.after t))
    (hmore : ∀ bus t, P bus → Q t → ∀ t' ∈ bus.consequences t, Q t')
    {bus : Bus} {tasks : List Task} (hbus : P bus) (htasks : ∀ t ∈ tasks, Q t) :
    P (bus.run tasks).1 ∧ ∀ d ∈ (bus.run tasks).2, Q (.deliver d) := by
  induction bus, tasks using run.induct with
  | case1 bus =>
    rw [run]
    exact ⟨hbus, fun d hd => absurd hd (by simp)⟩
  | case2 bus t rest ih =>
    have ht := htasks t List.mem_cons_self
    have hall : ∀ t' ∈ bus.consequences t ++ rest, Q t' := by
      intro t' ht'
      rcases List.mem_append.mp ht' with hnew | hold
      · exact hmore bus t hbus ht t' hnew
      · exact htasks t' (List.mem_cons_of_mem t hold)
    obtain ⟨hlast, hdeliveries⟩ := ih (hafter bus t hbus ht) hall
    rw [run]
    refine ⟨hlast, fun d hd => ?_⟩
    -- a delivery is the task itself or comes later
    rcases List.mem_append.mp hd with hnow | hlater
    · cases t with
      | deliver d' =>
        obtain rfl : d = d' := by simpa [Task.delivery?] using hnow
        exact ht
      | perform op => exact absurd hnow (by simp [Task.delivery?])
    · exact hdeliveries d hlater

/-! ## Shielding -/

theorem shielded_register {bus : Bus} (h : bus.Shielded) (filter : String) {receiver : Receiver}
    (hflag : receiver.isFlag = false) : (bus.register filter receiver).Shielded := by
  intro s hs
  rcases List.mem_append.mp hs with hs | hs
  · exact h s hs
  · rw [List.mem_singleton.mp hs]
    exact hflag

theorem shielded_unsubscribe {bus : Bus} (h : bus.Shielded) (filters : List String) :
    (bus.unsubscribe filters).Shielded := fun s hs => h s (List.mem_filter.mp hs).1

theorem subscriptions_afterReaction (bus : Bus) (r : Receiver) :
    (bus.afterReaction r).subscriptions = bus.subscriptions := by
  cases r <;> rfl

theorem shielded_after {bus : Bus} (h : bus.Shielded) (t : Task) : (bus.after t).Shielded := by
  cases t with
  | deliver d =>
    intro s hs
    rw [after, subscriptions_afterReaction] at hs
    exact h s hs
  | perform op =>
    cases op with
    | publish p => exact h
    | subscribe filter name reactions => exact shielded_register h filter rfl
    | unsubscribe filters => exact shielded_unsubscribe h filters

theorem isFlag_of_mem_receivers {bus : Bus} (h : bus.Shielded) {topic : String} {r : Receiver}
    (hr : r ∈ bus.receivers topic) : r.isFlag = false := by
  obtain ⟨s, hs, rfl⟩ := List.mem_map.mp hr
  exact h s (List.mem_filter.mp hs).1

/-- Whether a task hands no message to a flag. -/
def Task.Shielded : Task → Prop
  | .deliver d => d.receiver.isFlag = false
  | .perform _ => True

theorem shielded_consequences {bus : Bus} (h : bus.Shielded) (t : Task) :
    ∀ t' ∈ bus.consequences t, t'.Shielded := by
  intro t' ht'
  cases t with
  | deliver d =>
    obtain ⟨op, -, rfl⟩ := List.mem_map.mp ht'
    trivial
  | perform op =>
    cases op with
    | publish p =>
      obtain ⟨r, hr, rfl⟩ := List.mem_map.mp ht'
      exact isFlag_of_mem_receivers h hr
    | subscribe filter name reactions =>
      obtain ⟨m, -, rfl⟩ := List.mem_map.mp ht'
      rfl
    | unsubscribe filters => exact absurd ht' (by simp [consequences])

/-- Whatever is done on a shielded bus, no flag hears of it. -/
theorem shielded_perform {bus : Bus} (h : bus.Shielded) (op : Operation) :
    (bus.perform op).1.Shielded ∧ ∀ d ∈ (bus.perform op).2, d.receiver.isFlag = false := by
  refine run_induct (P := Shielded) (Q := Task.Shielded) (fun bus t hbus _ => shielded_after hbus t)
    (fun bus t hbus _ => shielded_consequences hbus t) h ?_
  intro t ht
  rw [List.mem_singleton.mp ht]
  trivial

/-! ## Wires -/

theorem wires_register (bus : Bus) (filter : String) (receiver : Receiver) :
    (bus.register filter receiver).wires =
      bus.wires ++ if receiver.isCharacteristic then [⟨filter, receiver⟩] else [] := by
  rw [wires, register, List.filter_append, List.filter_cons, List.filter_nil]
  rfl

theorem wires_unsubscribe (bus : Bus) (filters : List String) :
    (bus.unsubscribe filters).wires = bus.wires.filter fun s => !filters.contains s.filter := by
  rw [wires, wires, unsubscribe, List.filter_filter, List.filter_filter]
  simp only [Bool.and_comm]

theorem unsubscribe_nil (bus : Bus) : bus.unsubscribe [] = bus := by
  have hall : bus.subscriptions.filter (fun s => !([] : List String).contains s.filter) =
      bus.subscriptions := List.filter_eq_self.mpr fun s _ => rfl
  rw [unsubscribe, hall]

/-- Taking up a reaction leaves every client with reactions that it had before. -/
theorem reactions_afterReaction {P : List Operation → Prop} {bus : Bus}
    (h : ∀ c ∈ bus.clients, ∀ ops ∈ c.reactions, P ops) (r : Receiver) :
    ∀ c ∈ (bus.afterReaction r).clients, ∀ ops ∈ c.reactions, P ops := by
  cases r with
  | client n =>
    intro c hc
    obtain ⟨i, hi, rfl⟩ := List.mem_iff_getElem.mp hc
    simp only [afterReaction, List.getElem_modify] at hi ⊢
    rw [List.length_modify] at hi
    have hold := h bus.clients[i] (List.getElem_mem hi)
    split
    · exact fun ops hops => hold ops (List.mem_of_mem_tail hops)
    · exact hold
  | announcements n => exact h
  | departures n => exact h
  | characteristic n typeCode => exact h

/-- What is done on a delivery is one of the reactions that a client has left, or
nothing. -/
theorem reaction_eq_nil_or_mem (bus : Bus) (r : Receiver) :
    bus.reaction r = [] ∨ ∃ c ∈ bus.clients, bus.reaction r ∈ c.reactions := by
  cases r with
  | client n =>
    rw [reaction]
    cases hc : bus.clients[n]? with
    | none => exact Or.inl rfl
    | some c =>
      obtain ⟨name, reactions⟩ := c
      cases reactions with
      | nil => exact Or.inl rfl
      | cons ops rest => exact Or.inr ⟨_, List.mem_of_getElem? hc, List.mem_cons_self⟩
  | announcements n => exact Or.inl rfl
  | departures n => exact Or.inl rfl
  | characteristic n typeCode => exact Or.inl rfl

theorem tame_afterReaction {bus : Bus} (h : bus.Tame) (r : Receiver) :
    (bus.afterReaction r).Tame :=
  reactions_afterReaction (P := fun ops => ∀ op ∈ ops, op.Tame) h r

theorem tame_of_mem_reaction {bus : Bus} (h : bus.Tame) {r : Receiver} {op : Operation}
    (hop : op ∈ bus.reaction r) : op.Tame := by
  rcases bus.reaction_eq_nil_or_mem r with hnil | ⟨c, hc, hmem⟩
  · rw [hnil] at hop
    exact absurd hop (by simp)
  · exact h c hc _ hmem op hop

/-- Whether a task unsubscribes nothing. -/
def Task.Tame : Task → Prop
  | .deliver _ => True
  | .perform op => op.Tame

theorem tame_after {bus : Bus} {t : Task} (h : bus.Tame) (ht : t.Tame) :
    (bus.after t).Tame ∧ (bus.after t).wires = bus.wires := by
  cases t with
  | deliver d =>
    refine ⟨tame_afterReaction h d.receiver, ?_⟩
    rw [wires, after, subscriptions_afterReaction]
    rfl
  | perform op =>
    cases ht with
    | publish p => exact ⟨h, rfl⟩
    | @subscribe filter name reactions hreactions =>
      refine ⟨fun c hc => ?_, ?_⟩
      · rcases List.mem_append.mp hc with hc | hc
        · exact h c hc
        · rw [List.mem_singleton.mp hc]
          exact hreactions
      · have hwires := wires_register bus filter (.client bus.clients.length)
        rw [if_neg (by simp [Receiver.isCharacteristic]), List.append_nil] at hwires
        exact hwires

theorem tame_consequences {bus : Bus} {t : Task} (h : bus.Tame) (ht : t.Tame) :
    ∀ t' ∈ bus.consequences t, t'.Tame := by
  intro t' ht'
  cases t with
  | deliver d =>
    obtain ⟨op, hop, rfl⟩ := List.mem_map.mp ht'
    exact tame_of_mem_reaction h hop
  | perform op =>
    cases ht with
    | publish p =>
      obtain ⟨r, -, rfl⟩ := List.mem_map.mp ht'
      trivial
    | subscribe filter name hreactions =>
      obtain ⟨m, -, rfl⟩ := List.mem_map.mp ht'
      trivial

/-- Where nobody unsubscribes, the characteristics hear what they heard. -/
theorem tame_perform {bus : Bus} (h : bus.Tame) {op : Operation} (hop : op.Tame) :
    (bus.perform op).1.Tame ∧ (bus.perform op).1.wires = bus.wires := by
  let same (b : Bus) : Prop := b.Tame ∧ b.wires = bus.wires
  have hafter : ∀ b t, same b → Task.Tame t → same (b.after t) := by
    intro b t hb ht
    obtain ⟨htame, hwires⟩ := tame_after hb.1 ht
    exact ⟨htame, hwires.trans hb.2⟩
  have htasks : ∀ t ∈ [Task.perform op], t.Tame := by
    intro t ht
    rw [List.mem_singleton.mp ht]
    exact hop
  have hmore : ∀ b t, same b → Task.Tame t → ∀ t' ∈ b.consequences t, t'.Tame :=
    fun b t hb ht => tame_consequences hb.1 ht
  exact (run_induct hafter hmore ⟨h, rfl⟩ htasks).1

end Bus
end HomeSync
