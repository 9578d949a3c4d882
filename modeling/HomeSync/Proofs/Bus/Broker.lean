import HomeSync.Proofs.Bus.Accounts
import HomeSync.Proofs.Bus.Silent
import HomeSync.Proofs.Text.ByteOrder
import HomeSync.SortedMap.Lemmas

/-
What the bus owes to those who use it, told by what they did.

A client may publish, subscribe and unsubscribe while it is told of a message, and so may
those who hear of that in turn.  An operation is still served as if nobody had answered:
whom it hands a message to is settled when it begins, by the operations that began before
it.  Here these are listed in the order in which they begin, however deep they are nested,
and the subscriptions that stand and the messages that are retained are read off the list.

What a client does is a list of operations for each of its deliveries.  In a run that comes
to an end a client has done no more than such a list says, however it made up its mind, so
nothing that a client could do is left out.
-/
namespace HomeSync

namespace Operation

/-- Whether an operation takes the subscriptions under a filter away. -/
def cuts (filter : String) : Operation → Bool
  | .unsubscribe filters => filters.contains filter
  | _ => false

/-- The subscription that an operation makes, for the client with the given number. -/
def makes (n : Nat) : Operation → List Subscription
  | .subscribe filter _ _ => [⟨filter, .client n⟩]
  | _ => []

/-- What an operation gives a topic to be retained, maybe an empty payload. -/
def retains? (topic : String) : Operation → Option Payload
  | .publish p => if p.retain && p.topic == topic then some p.payload else none
  | _ => none

end Operation

namespace Bus

/-! ## What a history leaves -/

/-- The subscriptions that operations make and leave standing.  The clients are numbered
from `n` on, one for each operation that subscribes. -/
def made (n : Nat) : List Operation → List Subscription
  | [] => []
  | op :: later =>
    (op.makes n).filter (fun s => !later.any (·.cuts s.filter))
      ++ made (n + (op.makes n).length) later

/-- How many operations subscribe. -/
def newcomers (past : List Operation) : Nat := (past.flatMap (·.makes 0)).length

/-- The subscriptions that stand after a history, oldest first. -/
def standing (start : Bus) (past : List Operation) : List Subscription :=
  start.subscriptions.filter (fun s => !past.any (·.cuts s.filter))
    ++ made start.clients.length past

/-- What is retained on a topic after a history: what the last publication on the topic that
asks for it carries, unless that is empty. -/
def kept? (start : Bus) (past : List Operation) (topic : String) : Option Payload :=
  match (past.filterMap (·.retains? topic)).getLast? with
  | some payload => if payload.isEmpty then none else some payload
  | none => start.retained.find? topic

/-- What an operation hands out, told by the operations before it. -/
inductive Owes (start : Bus) (past : List Operation) : Operation → List Delivery → Prop
  /-- A publication is handed to every subscription that stands and matches, once and in the
  order in which they were made. -/
  | publish (p : Publication) :
      Owes start past (.publish p)
        (((start.standing past).filter fun s => Topic.accepts s.filter p.topic).map
          fun s => ⟨s.receiver, p.message⟩)
  /-- A new client is handed every message that is retained and matches, once and in the
  order of the bytes of the topics. -/
  | subscribe (filter name : String) (reactions : List (List Operation)) {ms : List Message} :
      (∀ m, m ∈ ms ↔
        Topic.accepts filter m.topic = true ∧ start.kept? past m.topic = some m.payload) →
      ms.Pairwise (fun m m' => Utf8.encode m.topic < Utf8.encode m'.topic) →
      Owes start past (.subscribe filter name reactions)
        (ms.map fun m => ⟨.client (start.clients.length + newcomers past), m⟩)
  | unsubscribe (filters : List String) : Owes start past (.unsubscribe filters) []

/-! ## One more operation -/

theorem length_makes (op : Operation) (n n' : Nat) :
    (op.makes n).length = (op.makes n').length := by
  cases op <;> rfl

theorem newcomers_cons (op : Operation) (later : List Operation) :
    newcomers (op :: later) = (op.makes 0).length + newcomers later := by
  rw [newcomers, List.flatMap_cons, List.length_append]
  rfl

theorem newcomers_concat (past : List Operation) (op : Operation) :
    newcomers (past ++ [op]) = newcomers past + (op.makes 0).length := by
  rw [newcomers, List.flatMap_append, List.length_append, List.flatMap_singleton]
  rfl

theorem filter_any_concat (l : List Subscription) (past : List Operation) (op : Operation) :
    l.filter (fun s => !(past ++ [op]).any (·.cuts s.filter)) =
      (l.filter fun s => !past.any (·.cuts s.filter)).filter fun s => !op.cuts s.filter := by
  rw [List.filter_filter]
  congr 1
  funext s
  rw [List.any_append, List.any_cons, List.any_nil, Bool.or_false, Bool.not_or, Bool.and_comm]

/-- The last operation cuts what it names and makes its own subscription. -/
theorem made_concat (n : Nat) (past : List Operation) (op : Operation) :
    made n (past ++ [op]) =
      (made n past).filter (fun s => !op.cuts s.filter) ++ op.makes (n + newcomers past) := by
  induction past generalizing n with
  | nil =>
    show (op.makes n).filter (fun _ => !false) ++ [] = [] ++ op.makes n
    rw [List.append_nil, List.nil_append]
    exact List.filter_eq_self.mpr fun _ _ => rfl
  | cons first later ih =>
    rw [List.cons_append, made, made, filter_any_concat, ih, List.filter_append,
      List.append_assoc, newcomers_cons, length_makes first n 0, Nat.add_assoc]

theorem standing_concat (start : Bus) (past : List Operation) (op : Operation) :
    start.standing (past ++ [op]) =
      (start.standing past).filter (fun s => !op.cuts s.filter) ++
        op.makes (start.clients.length + newcomers past) := by
  rw [standing, standing, filter_any_concat, made_concat, List.filter_append, List.append_assoc]

theorem kept?_concat (start : Bus) (past : List Operation) (op : Operation) (topic : String) :
    start.kept? (past ++ [op]) topic =
      match op.retains? topic with
      | some payload => if payload.isEmpty then none else some payload
      | none => start.kept? past topic := by
  rw [kept?, List.filterMap_append]
  cases hop : op.retains? topic with
  | none =>
    rw [List.filterMap_cons_none hop, List.filterMap_nil, List.append_nil]
    rfl
  | some payload =>
    rw [List.filterMap_cons_some hop, List.filterMap_nil, List.getLast?_concat]

/-! ## The bus remembers the history -/

theorem subscriptions_after_perform (bus : Bus) (op : Operation) :
    (bus.after (.perform op)).subscriptions =
      bus.subscriptions.filter (fun s => !op.cuts s.filter) ++ op.makes bus.clients.length := by
  have hall : bus.subscriptions.filter (fun _ => !false) = bus.subscriptions :=
    List.filter_eq_self.mpr fun _ _ => rfl
  cases op with
  | publish p => exact (List.append_nil _).symm ▸ hall.symm
  | subscribe filter name reactions =>
    exact congrArg (· ++ [(⟨filter, .client bus.clients.length⟩ : Subscription)]) hall.symm
  | unsubscribe filters => exact (List.append_nil _).symm

theorem length_clients_after_perform (bus : Bus) (op : Operation) :
    (bus.after (.perform op)).clients.length = bus.clients.length + (op.makes 0).length := by
  cases op with
  | publish p => rfl
  | subscribe filter name reactions => exact List.length_append
  | unsubscribe filters => rfl

theorem find?_retained_after_perform (bus : Bus) (op : Operation) (topic : String) :
    (bus.after (.perform op)).retained.find? topic =
      match op.retains? topic with
      | some payload => if payload.isEmpty then none else some payload
      | none => bus.retained.find? topic := by
  cases op with
  | subscribe filter name reactions => rfl
  | unsubscribe filters => rfl
  | publish p =>
    show (if p.retain then _ else _ : SortedMap String Payload).find? topic = _
    rw [Operation.retains?]
    by_cases hretain : p.retain = true
    · rw [if_pos hretain, hretain, Bool.true_and]
      by_cases htopic : p.topic = topic
      · rw [if_pos (beq_iff_eq.mpr htopic)]
        dsimp only
        split
        · rw [SortedMap.find?_erase, if_pos htopic]
        · rw [SortedMap.find?_insert, if_pos htopic]
      · rw [if_neg (mt beq_iff_eq.mp htopic)]
        dsimp only
        split
        · rw [SortedMap.find?_erase, if_neg htopic]
        · rw [SortedMap.find?_insert, if_neg htopic]
    · rw [if_neg hretain, Bool.of_not_eq_true hretain, Bool.false_and]
      rfl

/-- The state of a bus is the one that a history leaves. -/
structure Remembers (start : Bus) (past : List Operation) (bus : Bus) : Prop where
  subscriptions : bus.subscriptions = start.standing past
  clients : bus.clients.length = start.clients.length + newcomers past
  retained : ∀ topic, bus.retained.find? topic = start.kept? past topic

theorem remembers_nil (start : Bus) : start.Remembers [] start :=
  ⟨((List.append_nil _).trans (List.filter_eq_self.mpr fun _ _ => rfl)).symm, rfl, fun _ => rfl⟩

/-- Only an operation adds to the history, a delivery does not. -/
theorem remembers_after {start bus : Bus} {past : List Operation} (h : start.Remembers past bus)
    (t : Task) : start.Remembers (past ++ t.operation?.toList) (bus.after t) := by
  cases t with
  | deliver d =>
    rw [Task.operation?, Option.toList_none, List.append_nil]
    refine ⟨?_, ?_, fun topic => ?_⟩
    · rw [after, subscriptions_afterReaction]
      exact h.subscriptions
    · rw [← h.clients]
      cases hr : d.receiver <;> simp [after, afterReaction, hr]
    · rw [← h.retained topic]
      cases hr : d.receiver <;> simp [after, afterReaction, hr]
  | perform op =>
    rw [Task.operation?, Option.toList_some]
    refine ⟨?_, ?_, fun topic => ?_⟩
    · rw [subscriptions_after_perform, standing_concat, h.subscriptions, h.clients]
    · rw [length_clients_after_perform, newcomers_concat, h.clients, Nat.add_assoc]
    · rw [find?_retained_after_perform, kept?_concat, h.retained]

theorem pairwise_retainedFor (bus : Bus) (filter : String) :
    (bus.retainedFor filter).Pairwise
      fun m m' => Utf8.encode m.topic < Utf8.encode m'.topic := by
  refine List.pairwise_map.mpr (List.Pairwise.filter _ ?_)
  exact bus.retained.sorted.imp fun hlt => Utf8.encode_lt_encode hlt

/-- What an operation hands out by the state of the bus is what it owes by the history. -/
theorem owes_direct {start bus : Bus} {past : List Operation} (h : start.Remembers past bus)
    (op : Operation) : start.Owes past op (bus.direct op) := by
  cases op with
  | publish p =>
    rw [direct, receivers, h.subscriptions, List.map_map]
    exact .publish p
  | subscribe filter name reactions =>
    rw [direct, h.clients]
    refine .subscribe filter name reactions (fun m => ?_) (bus.pairwise_retainedFor filter)
    rw [mem_retainedFor, h.retained]
  | unsubscribe filters => exact .unsubscribe filters

/-! ## Performances -/

/-- An operation as it was performed. -/
structure Performance where
  /-- The operations that began before it, in this order. -/
  past : List Operation
  /-- The bus as it was when the operation began. -/
  bus : Bus
  op : Operation
  /-- The deliveries that the operation made itself. -/
  handed : List Delivery

/-- All operations of an account as they were performed, whether from outside or on a
delivery. -/
def Account.performances (bus : Bus) (past : List Operation) : Account → List Performance
  | .done => []
  | .next t within later =>
    (t.operation?.map fun op => ⟨past, bus, op, within.tasks.filterMap Task.delivery?⟩).toList
      ++ within.performances (bus.after t) (past ++ t.operation?.toList)
      ++ later.performances (within.final (bus.after t))
          (past ++ t.operation?.toList ++ within.operations)

/-- An operation finds what the history left and hands out what it owes. -/
structure Performance.Lawful (start : Bus) (p : Performance) : Prop where
  retained : ∀ topic, p.bus.retained.find? topic = start.kept? p.past topic
  handed : start.Owes p.past p.op p.handed

/-- A bus that remembers the history performs an operation as it has to. -/
theorem lawful_perform {start bus : Bus} {past : List Operation} (h : start.Remembers past bus)
    (op : Operation) :
    Performance.Lawful start
      ⟨past, bus, op, (bus.consequences (.perform op)).filterMap Task.delivery?⟩ := by
  have hdirect : (bus.consequences (.perform op)).filterMap Task.delivery? = bus.direct op := by
    rw [consequences_perform, List.filterMap_map]
    exact List.filterMap_some
  rw [hdirect]
  exact ⟨h.retained, owes_direct h op⟩

/-- The induction is on the account: what a task leaves is remembered by its consequences,
and what they leave by the tasks that waited. -/
theorem lawful_of_fits {start bus : Bus} {past : List Operation} (h : start.Remembers past bus)
    {a : Account} (hfits : a.Fits bus) :
    start.Remembers (past ++ a.operations) (a.final bus) ∧
      ∀ p ∈ a.performances bus past, p.Lawful start := by
  induction a generalizing bus past with
  | done =>
    rw [Account.operations, List.append_nil]
    exact ⟨h, fun p hp => absurd hp (by simp [Account.performances])⟩
  | next t within later ihwithin ihlater =>
    obtain ⟨htasks, hwithin, hlater⟩ := hfits
    obtain ⟨hinside, hlawful⟩ := ihwithin (remembers_after h t) hwithin
    obtain ⟨hlast, hlawful'⟩ := ihlater hinside hlater
    refine ⟨?_, fun p hp => ?_⟩
    · rw [Account.operations, ← List.append_assoc, ← List.append_assoc]
      exact hlast
    · rcases List.mem_append.mp hp with hp | hp
      · rcases List.mem_append.mp hp with hp | hp
        · obtain ⟨op, hop, rfl⟩ := Option.map_eq_some_iff.mp (Option.mem_toList.mp hp)
          obtain rfl : t = .perform op := by
            cases t with
            | deliver d => exact absurd hop (by simp [Task.operation?])
            | perform op' => rw [Option.some.inj hop]
          rw [htasks]
          exact lawful_perform h op
        · exact hlawful p hp
      · exact hlawful' p hp

theorem filterMap_delivery?_perform (ops : List Operation) :
    (ops.map Task.perform).filterMap Task.delivery? = [] := by
  rw [List.filterMap_map]
  exact List.filterMap_eq_nil_iff.mpr fun _ _ => rfl

/-- Whatever is delivered is handed out by an operation, if it is not asked for at the
beginning. -/
theorem deliveries_perm_handed {bus : Bus} {a : Account} (hfits : a.Fits bus)
    (past : List Operation) :
    a.deliveries.Perm
      (a.tasks.filterMap Task.delivery? ++ (a.performances bus past).flatMap (·.handed)) := by
  induction a generalizing bus past with
  | done => exact .nil
  | next t within later ihwithin ihlater =>
    obtain ⟨htasks, hwithin, hlater⟩ := hfits
    have hinside := ihwithin hwithin (past ++ t.operation?.toList)
    have houtside := ihlater hlater (past ++ t.operation?.toList ++ within.operations)
    have hfirst : (t :: later.tasks).filterMap Task.delivery? =
        t.delivery?.toList ++ later.tasks.filterMap Task.delivery? := by
      cases t <;> rfl
    -- What a client does about a delivery begins with operations, so nothing is handed out.
    have hroots : within.tasks.filterMap Task.delivery? =
        (t.operation?.map fun op =>
          (⟨past, bus, op, within.tasks.filterMap Task.delivery?⟩ : Performance)).toList.flatMap
            (·.handed) := by
      cases t with
      | deliver d =>
        rw [htasks, consequences]
        exact filterMap_delivery?_perform _
      | perform op => exact (List.flatMap_singleton ..).symm
    rw [Account.deliveries, Account.tasks, Account.performances, hfirst, List.flatMap_append,
      List.flatMap_append, ← hroots, List.append_assoc, List.append_assoc t.delivery?.toList]
    exact ((hinside.append houtside).trans (List.perm_append_comm_assoc ..)).append_left _

/-- Let operations be performed one after the other on a bus, and let its clients perform
others whenever they are told of a message.  There is one account of all this.  It tells the
deliveries in their order, and each of them is handed out by one of its operations.  Every
operation in it, whoever performed it and whatever was done about its deliveries meanwhile,
finds and hands out what follows from the operations that began before it. -/
theorem performances_by_history (bus : Bus) (ops : List Operation) :
    ∃ a : Account, (a.tasks = ops.map .perform ∧ a.Fits bus) ∧
      (∀ b : Account, b.tasks = ops.map .perform → b.Fits bus → b = a) ∧
      bus.run (ops.map .perform) = (a.final bus, a.deliveries) ∧
      a.deliveries.Perm ((a.performances bus []).flatMap (·.handed)) ∧
      (∀ p ∈ a.performances bus [], p.Lawful bus) ∧
      ∀ topic, (a.final bus).retained.find? topic = bus.kept? a.operations topic := by
  obtain ⟨a, htasks, hfits, hrun⟩ := bus.exists_account (ops.map .perform)
  obtain ⟨hlast, hlawful⟩ := lawful_of_fits bus.remembers_nil hfits
  have hhanded := deliveries_perm_handed hfits []
  rw [htasks, filterMap_delivery?_perform, List.nil_append] at hhanded
  refine ⟨a, ⟨htasks, hfits⟩, fun b hb hbfits => ?_, hrun, hhanded, hlawful, hlast.retained⟩
  exact Account.eq_of_fits hbfits hfits (hb.trans htasks.symm)

end Bus
end HomeSync
