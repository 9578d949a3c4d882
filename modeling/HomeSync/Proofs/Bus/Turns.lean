import HomeSync.Proofs.Bus.Levels
import HomeSync.Proofs.Bus.Wires

/-
The order in which a router hears the messages on a bus.

A router makes its two subscriptions one right after the other, so for each message
its two deliveries follow on each other.  We call them the turn of the message.
What clients do about a message is done between the deliveries, and so a message
that is published later may be heard earlier.  But whatever happens, each message
gets its turn once and as a whole.
-/
namespace HomeSync

namespace Receiver

/-- Whether a receiver is one of the two of a router. -/
def ofRouter (n : Nat) : Receiver → Bool
  | .announcements k | .departures k => k == n
  | _ => false

end Receiver

namespace Bus

/-! ## What is published -/

def Task.publication? : Task → Option Publication
  | .perform (.publish p) => some p
  | _ => none

/-- What is published while a stack of tasks is worked through, in that order. -/
def publications (bus : Bus) : List Task → List Publication
  | [] => []
  | t :: rest => t.publication?.toList ++ publications (bus.after t) (bus.consequences t ++ rest)
termination_by tasks => (weight bus tasks, tasks.length)
decreasing_by
  rcases weight_step bus t rest with h | ⟨h, h'⟩
  · exact Prod.Lex.left _ _ h
  · rw [h, h']
    exact Prod.Lex.right _ (by simp)

/-- The messages that are published on account of an operation. -/
def burst (bus : Bus) (op : Operation) : List Message :=
  (bus.publications [.perform op]).map (·.message)

theorem recording_after (bus : Bus) (t : Task) : (bus.after t).recording = bus.recording := by
  cases t with
  | deliver d => cases hd : d.receiver <;> simp [after, afterReaction, hd]
  | perform op => cases op <;> rfl

theorem published_after {bus : Bus} (h : bus.recording = true) (t : Task) :
    (bus.after t).published = bus.published ++ t.publication?.toList := by
  have hsame : ∀ l : List Publication, l = l ++ (none : Option Publication).toList :=
    fun l => (List.append_nil l).symm
  cases t with
  | deliver d => cases hd : d.receiver <;> simp [after, afterReaction, hd, Task.publication?]
  | perform op =>
    cases op with
    | publish p =>
      show (if bus.recording then bus.published ++ [p] else bus.published) = _
      rw [if_pos h]
      rfl
    | subscribe filter name reactions => exact hsame _
    | unsubscribe filters => exact hsame _

theorem recording_run (bus : Bus) (tasks : List Task) :
    (bus.run tasks).1.recording = bus.recording := by
  induction bus, tasks using run.induct with
  | case1 bus => rw [run]
  | case2 bus t rest ih => rw [run, ih, recording_after]

/-- A bus that keeps a record has recorded just what was published. -/
theorem published_run {bus : Bus} (h : bus.recording = true) (tasks : List Task) :
    (bus.run tasks).1.published = bus.published ++ bus.publications tasks := by
  induction bus, tasks using run.induct with
  | case1 bus =>
    rw [run, publications, List.append_nil]
  | case2 bus t rest ih =>
    rw [run, publications]
    dsimp only
    rw [ih ((recording_after bus t).trans h), published_after h, List.append_assoc]

/-! ## Without clients -/

theorem after_deliver {bus : Bus} (h : bus.clients = []) (d : Delivery) :
    bus.after (.deliver d) = bus := by
  obtain ⟨recording, subscriptions, retained, published, clients⟩ := bus
  obtain rfl : clients = [] := h
  cases hd : d.receiver <;> simp [after, afterReaction, hd]

theorem consequences_deliver {bus : Bus} (h : bus.clients = []) (d : Delivery) :
    bus.consequences (.deliver d) = [] := by
  cases hd : d.receiver <;> simp [consequences, reaction, hd, h]

theorem run_deliveries {bus : Bus} (h : bus.clients = []) (ds : List Delivery) :
    bus.run (ds.map .deliver) = (bus, ds) := by
  induction ds with
  | nil =>
    rw [List.map_nil, run]
  | cons d rest ih =>
    rw [List.map_cons, run, after_deliver h, consequences_deliver h, List.nil_append, ih]
    rfl

theorem consequences_publish (bus : Bus) (p : Publication) :
    bus.consequences (.perform (.publish p)) ++ [] =
      ((bus.receivers p.topic).map fun r => (⟨r, p.message⟩ : Delivery)).map .deliver := by
  rw [List.append_nil, List.map_map]
  rfl

theorem publications_deliveries {bus : Bus} (h : bus.clients = []) (ds : List Delivery) :
    bus.publications (ds.map .deliver) = [] := by
  induction ds with
  | nil => rw [List.map_nil, publications]
  | cons d rest ih =>
    rw [List.map_cons, publications, after_deliver h, consequences_deliver h]
    exact ih

theorem burst_publish {bus : Bus} (h : bus.clients = []) (p : Publication) :
    bus.burst (.publish p) = [p.message] := by
  have hclients : (bus.after (.perform (.publish p))).clients = [] := h
  rw [burst, publications, consequences_publish, publications_deliveries hclients]
  rfl

/-- Without clients a publication is handed out and that is all. -/
theorem perform_publish {bus : Bus} (h : bus.clients = []) (p : Publication) :
    bus.perform (.publish p) =
      (bus.accept p, (bus.receivers p.topic).map fun r => ⟨r, p.message⟩) := by
  have hclients : (bus.after (.perform (.publish p))).clients = [] := h
  rw [perform, run, consequences_publish, run_deliveries hclients]
  rfl

/-! ## Turns -/

/-- The two subscriptions of a router, in the order in which it makes them. -/
def posts (config : RouterConfig) (n : Nat) : List Subscription :=
  [⟨config.announceFilter, .announcements n⟩, ⟨config.leave, .departures n⟩]

section Turns

variable {bus : Bus} {config : RouterConfig} {n : Nat}

/-- Nothing makes a subscription for a router later on. -/
theorem mem_subscriptions_of_run {s : Subscription} (hs : s.receiver.ofRouter n = true)
    {tasks : List Task} (hmem : s ∈ (bus.run tasks).1.subscriptions) : s ∈ bus.subscriptions := by
  have hafter : ∀ (b : Bus) (t : Task), (s ∈ b.subscriptions → s ∈ bus.subscriptions) →
      True → s ∈ (b.after t).subscriptions → s ∈ bus.subscriptions := by
    intro b t hb _ hmem
    cases t with
    | deliver d =>
      rw [after, subscriptions_afterReaction] at hmem
      exact hb hmem
    | perform op =>
      cases op with
      | publish p => exact hb hmem
      | subscribe filter name reactions =>
        rcases List.mem_append.mp hmem with hold | hnew
        · exact hb hold
        · rw [List.mem_singleton.mp hnew] at hs
          exact absurd hs (by simp [Receiver.ofRouter])
      | unsubscribe filters => exact hb (List.mem_filter.mp hmem).1
  exact (run_induct (P := fun b => s ∈ b.subscriptions → s ∈ bus.subscriptions)
    (Q := fun _ => True) hafter (fun _ _ _ _ _ _ => trivial) id fun _ _ => trivial).1 hmem

end Turns

end Bus
end HomeSync
