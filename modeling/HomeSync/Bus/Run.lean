import HomeSync.Bus.Basic

/-
What follows from an operation on the bus.

A publication is delivered to the receivers of that moment, one after the other,
and what a client does on a delivery is finished before the next delivery.  The
work to do is a stack of tasks.  It runs out, since every delivery to a client
uses up one of the reactions that the client came with.
-/
namespace HomeSync
namespace Bus

inductive Task where
  | deliver (d : Delivery)
  | perform (op : Operation)

def reaction (bus : Bus) : Receiver → List Operation
  | .client n =>
    match bus.clients[n]? with
    | some c => c.reactions.headD []
    | none => []
  | _ => []

def afterReaction (bus : Bus) : Receiver → Bus
  | .client n =>
    { bus with clients := bus.clients.modify n fun c => { c with reactions := c.reactions.tail } }
  | _ => bus

def deliveries (receivers : List Receiver) (m : Message) : List Task :=
  receivers.map fun r => .deliver ⟨r, m⟩

/-- What a task leaves to be done at once. -/
def consequences (bus : Bus) : Task → List Task
  | .deliver d => (bus.reaction d.receiver).map .perform
  | .perform (.publish p) => deliveries (bus.receivers p.topic) p.message
  | .perform (.subscribe filter _ _) =>
    (bus.retainedFor filter).map fun m => .deliver ⟨.client bus.clients.length, m⟩
  | .perform (.unsubscribe _) => []

def after (bus : Bus) : Task → Bus
  | .deliver d => bus.afterReaction d.receiver
  | .perform (.publish p) => bus.accept p
  | .perform (.subscribe filter name reactions) =>
    (bus.register filter (.client bus.clients.length)).addClient name reactions
  | .perform (.unsubscribe filters) => bus.unsubscribe filters

def Task.delivery? : Task → Option Delivery
  | .deliver d => some d
  | .perform _ => none

/-! ## The work runs out -/

noncomputable def Task.weight : Task → Nat
  | .deliver _ => 0
  | .perform op => sizeOf op

def total (sizes : List Nat) : Nat := sizes.foldr (· + ·) 0

@[simp] theorem total_nil : total [] = 0 := rfl

@[simp] theorem total_cons (n : Nat) (rest : List Nat) : total (n :: rest) = n + total rest := rfl

theorem total_append (l l' : List Nat) : total (l ++ l') = total l + total l' := by
  induction l with
  | nil => exact (Nat.zero_add _).symm
  | cons n rest ih => rw [List.cons_append, total_cons, total_cons, ih, Nat.add_assoc]

/-- The size of all operations that are waiting, as tasks or as reactions. -/
noncomputable def weight (bus : Bus) (tasks : List Task) : Nat :=
  total (tasks.map Task.weight) + total (bus.clients.map fun c => sizeOf c.reactions)

theorem weight_deliveries (receivers : List Receiver) (m : Message) :
    total ((deliveries receivers m).map Task.weight) = 0 := by
  induction receivers with
  | nil => rfl
  | cons r rest ih => simpa [deliveries, Task.weight] using ih

theorem weight_replay (n : Nat) (messages : List Message) :
    total ((messages.map fun m => Task.deliver ⟨.client n, m⟩).map Task.weight) = 0 := by
  induction messages with
  | nil => rfl
  | cons m rest ih => simpa [Task.weight] using ih

theorem weight_performs_lt (ops : List Operation) :
    total ((ops.map Task.perform).map Task.weight) < sizeOf ops := by
  induction ops with
  | nil => simp
  | cons op rest ih =>
    simp only [List.map_cons, total_cons, Task.weight, List.cons.sizeOf_spec]
    simp only [List.map_map] at ih ⊢
    omega

/-- Taking up a reaction makes the reactions of all clients smaller by at least
what is performed, or there is nothing to perform. -/
theorem weight_reactions (clients : List Client) (n : Nat) :
    (total ((clients.modify n fun c => { c with reactions := c.reactions.tail }).map
        fun c => sizeOf c.reactions)
      + total ((((clients[n]?.map fun c => c.reactions.headD []).getD []).map
          Task.perform).map Task.weight)
      < total (clients.map fun c => sizeOf c.reactions))
    ∨ (clients.modify n (fun c => { c with reactions := c.reactions.tail }) = clients
      ∧ (clients[n]?.map fun c => c.reactions.headD []).getD [] = []) := by
  induction clients generalizing n with
  | nil => exact Or.inr ⟨by simp, by simp⟩
  | cons c rest ih =>
    cases n with
    | zero =>
      obtain ⟨name, reactions⟩ := c
      cases reactions with
      | nil => exact Or.inr ⟨by simp, by simp⟩
      | cons ops more =>
        refine Or.inl ?_
        have := weight_performs_lt ops
        simp only [List.modify_zero_cons, List.tail_cons, List.map_cons, total_cons,
          List.getElem?_cons_zero, Option.map_some, List.headD_cons, Option.getD_some,
          List.cons.sizeOf_spec]
        omega
    | succ n =>
      rcases ih n with h | ⟨h, h'⟩
      · refine Or.inl ?_
        simp only [List.modify_succ_cons, List.map_cons, total_cons,
          List.getElem?_cons_succ]
        omega
      · exact Or.inr ⟨by simp [h], by simpa using h'⟩

theorem reaction_client (bus : Bus) (n : Nat) :
    bus.reaction (.client n) = (bus.clients[n]?.map fun c => c.reactions.headD []).getD [] := by
  simp only [reaction]
  cases bus.clients[n]? <;> rfl

/-- A task and its consequences weigh less than the task alone did, or they
weigh the same and nothing follows from the task. -/
theorem weight_step (bus : Bus) (t : Task) (rest : List Task) :
    weight (bus.after t) (bus.consequences t ++ rest) < weight bus (t :: rest)
    ∨ (weight (bus.after t) (bus.consequences t ++ rest) = weight bus (t :: rest)
      ∧ bus.consequences t = []) := by
  cases t with
  | deliver d =>
    obtain ⟨receiver, m⟩ := d
    cases receiver with
    | client n =>
      rcases weight_reactions bus.clients n with h | ⟨h, h'⟩
      · refine Or.inl ?_
        simp only [weight, after, afterReaction, consequences, reaction_client, List.map_append,
          total_append, List.map_cons, total_cons, Task.weight] at h ⊢
        omega
      · refine Or.inr ⟨?_, ?_⟩
        · simp only [weight, after, afterReaction, consequences, reaction_client, h, h',
            List.map_nil, List.nil_append, List.map_cons, total_cons, Task.weight, Nat.zero_add]
        · simp only [consequences, reaction_client, h', List.map_nil]
    | _ =>
      refine Or.inr ⟨?_, by simp [consequences, reaction]⟩
      simp [weight, after, afterReaction, consequences, reaction, Task.weight]
  | perform op =>
    refine Or.inl ?_
    cases op with
    | publish p =>
      have := weight_deliveries (bus.receivers p.topic) p.message
      simp only [weight, after, accept, consequences, List.map_append, total_append,
        List.map_cons, total_cons, Task.weight, Operation.publish.sizeOf_spec]
      omega
    | subscribe filter name reactions =>
      have := weight_replay bus.clients.length (bus.retainedFor filter)
      simp only [weight, after, register, addClient, consequences, List.map_append,
        total_append, List.map_cons, total_cons, List.map_nil, total_nil, Task.weight,
        Operation.subscribe.sizeOf_spec]
      omega
    | unsubscribe filters =>
      simp only [weight, after, unsubscribe, consequences, List.nil_append, List.map_cons,
        total_cons, Task.weight, Operation.unsubscribe.sizeOf_spec]
      omega

/-! ## Running -/

/-- Work through a stack of tasks.  The deliveries are listed in the order in
which they are made. -/
def run (bus : Bus) : List Task → Bus × List Delivery
  | [] => (bus, [])
  | t :: rest =>
    let done := run (bus.after t) (bus.consequences t ++ rest)
    (done.1, t.delivery?.toList ++ done.2)
termination_by tasks => (weight bus tasks, tasks.length)
decreasing_by
  rcases weight_step bus t rest with h | ⟨h, h'⟩
  · exact Prod.Lex.left _ _ h
  · rw [h, h']
    exact Prod.Lex.right _ (by simp)

def perform (bus : Bus) (op : Operation) : Bus × List Delivery := bus.run [.perform op]

end Bus
end HomeSync
