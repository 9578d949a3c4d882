import HomeSync.Proofs.Bus.Wires
import HomeSync.SortedMap.Lemmas

/-
A bus on which nobody answers.

Clients may listen, but they do nothing about what they hear.  Then an operation has
no consequences but its own deliveries: a publication is handed to the receivers of
the moment, and a new client is handed what is retained.
-/
namespace HomeSync

/-- An operation that cuts nobody off and sets nothing off later on. -/
def Operation.Silent : Operation → Prop
  | .publish _ => True
  | .subscribe _ _ reactions => ∀ ops ∈ reactions, ops = []
  | .unsubscribe _ => False

theorem Operation.tame_of_silent {op : Operation} (h : op.Silent) : op.Tame := by
  cases op with
  | publish p => exact .publish p
  | subscribe filter name reactions =>
    refine .subscribe filter name fun ops hops op hop => ?_
    rw [h ops hops] at hop
    exact absurd hop (by simp)
  | unsubscribe filters => exact h.elim

namespace Bus

/-- No client will ever do anything about what it hears. -/
def Silent (bus : Bus) : Prop := ∀ c ∈ bus.clients, ∀ ops ∈ c.reactions, ops = []

theorem consequences_of_silent {bus : Bus} (h : bus.Silent) (d : Delivery) :
    bus.consequences (.deliver d) = [] := by
  have hnone : bus.reaction d.receiver = [] := by
    rcases bus.reaction_eq_nil_or_mem d.receiver with hnil | ⟨c, hc, hmem⟩
    · exact hnil
    · exact h c hc _ hmem
  rw [consequences, hnone]
  rfl

/-- Deliveries are made one by one, and afterwards the bus is as silent as before. -/
theorem run_deliveries_of_silent {bus : Bus} (h : bus.Silent) (ds : List Delivery) :
    ∃ bus', bus.run (ds.map .deliver) = (bus', ds) ∧ bus'.Silent ∧
      bus'.retained = bus.retained := by
  induction ds generalizing bus with
  | nil => exact ⟨bus, by rw [List.map_nil, run], h, rfl⟩
  | cons d rest ih =>
    have hsilent : (bus.after (.deliver d)).Silent := reactions_afterReaction h d.receiver
    have hretained : (bus.after (.deliver d)).retained = bus.retained := by
      cases hr : d.receiver <;> simp [after, afterReaction, hr]
    obtain ⟨bus', hrun, hsilent', hretained'⟩ := ih hsilent
    refine ⟨bus', ?_, hsilent', hretained'.trans hretained⟩
    rw [List.map_cons, run, consequences_of_silent h, List.nil_append, hrun]
    rfl

/-- The deliveries that an operation asks for itself. -/
def direct (bus : Bus) : Operation → List Delivery
  | .publish p => (bus.receivers p.topic).map fun r => ⟨r, p.message⟩
  | .subscribe filter _ _ =>
    (bus.retainedFor filter).map fun m => ⟨.client bus.clients.length, m⟩
  | .unsubscribe _ => []

theorem mem_retainedFor {bus : Bus} {filter : String} {m : Message} :
    m ∈ bus.retainedFor filter ↔
      Topic.accepts filter m.topic = true ∧ bus.retained.find? m.topic = some m.payload := by
  rw [SortedMap.find?_eq_some_iff, retainedFor, List.mem_map]
  constructor
  · rintro ⟨e, he, rfl⟩
    exact (List.mem_filter.mp he).symm
  · rintro ⟨haccepts, hentry⟩
    exact ⟨(m.topic, m.payload), List.mem_filter.mpr ⟨hentry, haccepts⟩, rfl⟩

theorem consequences_perform (bus : Bus) (op : Operation) :
    bus.consequences (.perform op) = (bus.direct op).map .deliver := by
  cases op with
  | publish p => exact List.map_map.symm
  | subscribe filter name reactions => exact List.map_map.symm
  | unsubscribe filters => rfl

/-- On a silent bus an operation comes down to its own deliveries. -/
theorem perform_of_silent {bus : Bus} (h : bus.Silent) {op : Operation} (hop : op.Silent) :
    ∃ bus', bus.perform op = (bus', bus.direct op) ∧ bus'.Silent ∧
      bus'.retained = (bus.after (.perform op)).retained := by
  have hsilent : (bus.after (.perform op)).Silent := by
    cases op with
    | publish p => exact h
    | subscribe filter name reactions =>
      intro c hc
      rcases List.mem_append.mp hc with hold | hnew
      · exact h c hold
      · rw [List.mem_singleton.mp hnew]
        exact hop
    | unsubscribe filters => exact hop.elim
  obtain ⟨bus', hrun, hsilent', hretained⟩ := run_deliveries_of_silent hsilent (bus.direct op)
  refine ⟨bus', ?_, hsilent', hretained⟩
  rw [perform, run, consequences_perform, List.append_nil, hrun]
  rfl

end Bus
end HomeSync
