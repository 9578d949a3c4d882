import HomeSync.Proofs.Bus.Broker
import HomeSync.Proofs.Bus.Turns

/-
Messages that nobody does anything about.

A client may listen to a topic and leave it at that.  A message on such a topic changes what
is retained there and how often the client was told, and nothing that happens on the bus
later depends on either.  So two buses that differ in such things alone go on to differ in
them alone, whatever is done on both, and apart from what idle clients are told they hand out
the same.
-/
namespace HomeSync

/-- Whoever an operation lets listen to one of the topics will never do anything. -/
inductive Operation.Discreet (quiet : List String) : Operation → Prop
  | publish (p : Publication) : Discreet quiet (.publish p)
  | subscribe (filter name : String) {reactions : List (List Operation)} :
      ((∀ topic ∈ quiet, Topic.accepts filter topic = false) ∨ ∀ ops ∈ reactions, ops = []) →
      (∀ ops ∈ reactions, ∀ op ∈ ops, Discreet quiet op) →
      Discreet quiet (.subscribe filter name reactions)
  | unsubscribe (filters : List String) : Discreet quiet (.unsubscribe filters)

namespace Bus

/-! ## What a client is still going to do -/

/-- What the receiver does on the delivery after the next `k` ones. -/
def plan (bus : Bus) : Receiver → Nat → List Operation
  | .client n, k => ((bus.clients[n]?.map (·.reactions)).getD []).getD k []
  | _, _ => []

/-- A client that will never do anything. -/
def Idle (bus : Bus) (r : Receiver) : Prop :=
  (∃ n < bus.clients.length, r = .client n) ∧ ∀ k, bus.plan r k = []

theorem reaction_eq_plan (bus : Bus) (r : Receiver) : bus.reaction r = bus.plan r 0 := by
  cases r with
  | client n =>
    rw [reaction_client, plan]
    cases bus.clients[n]? with
    | none => rfl
    | some c => cases hc : c.reactions <;> simp [hc]
  | _ => rfl

theorem length_clients_afterReaction (bus : Bus) (r : Receiver) :
    (bus.afterReaction r).clients.length = bus.clients.length := by
  cases r with
  | client n => exact List.length_modify ..
  | _ => rfl

/-- A delivery takes the receiver one step on and nobody else. -/
theorem plan_afterReaction (bus : Bus) (r r' : Receiver) (k : Nat) :
    (bus.afterReaction r).plan r' k = bus.plan r' (if r = r' then k + 1 else k) := by
  cases r with
  | client n =>
    cases r' with
    | client n' =>
      rw [plan, plan, afterReaction, List.getElem?_modify]
      by_cases hn : n = n'
      · obtain rfl := hn
        rw [if_pos rfl]
        cases bus.clients[n]? with
        | none => rfl
        | some c => cases hc : c.reactions <;> simp [hc]
      · rw [if_neg (mt Receiver.client.inj hn)]
        simp [hn]
    | _ => rfl
  | _ => cases r' <;> simp [afterReaction, plan]

theorem plan_addClient (bus : Bus) (name : String) (reactions : List (List Operation))
    (r : Receiver) (k : Nat) :
    (bus.addClient name reactions).plan r k =
      if r = .client bus.clients.length then reactions.getD k [] else bus.plan r k := by
  cases r with
  | client n =>
    rw [plan, plan, addClient]
    by_cases hn : n = bus.clients.length
    · rw [if_pos (by rw [hn]), hn, List.getElem?_concat_length]
      rfl
    · rw [if_neg (mt Receiver.client.inj hn)]
      rcases Nat.lt_or_gt_of_ne hn with hlt | hgt
      · rw [List.getElem?_append_left hlt]
      · rw [List.getElem?_eq_none (by simp; omega), List.getElem?_eq_none (by omega)]
  | _ => rw [if_neg (by simp)]; rfl

theorem idle_after {bus : Bus} {r : Receiver} (h : bus.Idle r) (t : Task) :
    (bus.after t).Idle r := by
  obtain ⟨⟨n, hn, rfl⟩, hplan⟩ := h
  cases t with
  | deliver d =>
    refine ⟨⟨n, ?_, rfl⟩, fun k => ?_⟩
    · rw [after, length_clients_afterReaction]
      exact hn
    · rw [after, plan_afterReaction]
      exact hplan _
  | perform op =>
    cases op with
    | publish p => exact ⟨⟨n, hn, rfl⟩, hplan⟩
    | unsubscribe filters => exact ⟨⟨n, hn, rfl⟩, hplan⟩
    | subscribe filter name reactions =>
      refine ⟨⟨n, ?_, rfl⟩, fun k => ?_⟩
      · show n < (bus.clients ++ [_]).length
        rw [List.length_append]
        exact Nat.lt_add_right _ hn
      · have hold : Receiver.client n ≠ .client bus.clients.length :=
          mt Receiver.client.inj (Nat.ne_of_lt hn)
        have hplan' : ((bus.register filter (.client bus.clients.length)).addClient name
            reactions).plan (.client n) k = bus.plan (.client n) k :=
          (plan_addClient _ name reactions (.client n) k).trans (if_neg hold)
        exact hplan'.trans (hplan k)

/-! ## Nobody minds -/

/-- Who a task lets know of the topics is idle, or will be. -/
def Task.Discreet (quiet : List String) (bus : Bus) : Task → Prop
  | .deliver d => d.message.topic ∈ quiet → bus.Idle d.receiver
  | .perform op => op.Discreet quiet

/-- Everybody who listens to one of the topics is an idle client, and this will be so. -/
structure Discreet (quiet : List String) (bus : Bus) (tasks : List Task) : Prop where
  idle : ∀ s ∈ bus.subscriptions, ∀ topic ∈ quiet,
    Topic.accepts s.filter topic = true → bus.Idle s.receiver
  plans : ∀ r k, ∀ op ∈ bus.plan r k, op.Discreet quiet
  tasks : ∀ t ∈ tasks, t.Discreet quiet bus

/-- Whether a task is a delivery of a message on none of the topics, or no delivery. -/
def Task.loud (quiet : List String) : Task → Bool
  | .deliver d => !quiet.contains d.message.topic
  | .perform _ => true

section Discreet

variable {quiet : List String} {bus : Bus} {t : Task} {rest : List Task}

theorem Task.quiet_cases (h : t.loud quiet = false) :
    ∃ d, t = .deliver d ∧ d.message.topic ∈ quiet := by
  cases t with
  | deliver d => exact ⟨d, rfl, by simpa [Task.loud] using h⟩
  | perform op => exact absurd h (by simp [Task.loud])

theorem Task.discreet_after (h : t.Discreet quiet bus) (t' : Task) :
    t.Discreet quiet (bus.after t') := by
  cases t with
  | deliver d => exact fun hd => idle_after (h hd) t'
  | perform op => exact h

theorem discreet_singleton (h : bus.Discreet quiet []) {op : Operation} (hop : op.Discreet quiet) :
    bus.Discreet quiet [.perform op] := by
  refine ⟨h.idle, h.plans, fun t ht => ?_⟩
  rw [List.mem_singleton.mp ht]
  exact hop

/-- The new client of a discreet operation is idle if it hears of one of the topics. -/
theorem idle_newcomer {filter name : String} {reactions : List (List Operation)}
    (hop : (Operation.subscribe filter name reactions).Discreet quiet) {topic : String}
    (htopic : topic ∈ quiet) (haccepts : Topic.accepts filter topic = true) :
    (bus.after (.perform (.subscribe filter name reactions))).Idle
      (.client bus.clients.length) := by
  cases hop with
  | subscribe _ _ heither _ =>
    have hnone : ∀ ops ∈ reactions, ops = [] := heither.resolve_left fun hdeaf => by
      rw [hdeaf topic htopic] at haccepts
      exact Bool.false_ne_true haccepts
    refine ⟨⟨_, ?_, rfl⟩, fun k => ?_⟩
    · show _ < (bus.clients ++ [_]).length
      rw [List.length_append]
      exact Nat.lt_succ_self _
    · refine (plan_addClient _ name reactions _ k).trans ((if_pos rfl).trans ?_)
      rw [List.getD_eq_getElem?_getD]
      cases hk : reactions[k]? with
      | none => rfl
      | some ops => exact hnone ops (List.mem_of_getElem? hk)

theorem idle_subscriptions_after (h : bus.Discreet quiet (t :: rest)) :
    ∀ s ∈ (bus.after t).subscriptions, ∀ topic ∈ quiet,
      Topic.accepts s.filter topic = true → (bus.after t).Idle s.receiver := by
  have hold : ∀ s ∈ bus.subscriptions, ∀ topic ∈ quiet,
      Topic.accepts s.filter topic = true → (bus.after t).Idle s.receiver :=
    fun s hs topic htopic haccepts => idle_after (h.idle s hs topic htopic haccepts) t
  intro s hs topic htopic haccepts
  cases t with
  | deliver d =>
    rw [after, subscriptions_afterReaction] at hs
    exact hold s hs topic htopic haccepts
  | perform op =>
    cases op with
    | publish p => exact hold s hs topic htopic haccepts
    | unsubscribe filters => exact hold s (List.mem_filter.mp hs).1 topic htopic haccepts
    | subscribe filter name reactions =>
      rcases List.mem_append.mp hs with hs | hs
      · exact hold s hs topic htopic haccepts
      · obtain rfl := List.mem_singleton.mp hs
        exact idle_newcomer (h.tasks _ List.mem_cons_self) htopic haccepts

theorem discreet_plans_after (h : bus.Discreet quiet (t :: rest)) :
    ∀ r k, ∀ op ∈ (bus.after t).plan r k, op.Discreet quiet := by
  intro r k op hop
  cases t with
  | deliver d =>
    rw [after, plan_afterReaction] at hop
    exact h.plans r _ op hop
  | perform op' =>
    cases op' with
    | publish p => exact h.plans r k op hop
    | unsubscribe filters => exact h.plans r k op hop
    | subscribe filter name reactions =>
      have hplan := plan_addClient (bus.register filter (.client bus.clients.length)) name
        reactions r k
      rw [after, hplan] at hop
      split at hop
      · rw [List.getD_eq_getElem?_getD] at hop
        cases hk : reactions[k]? with
        | none =>
          rw [hk] at hop
          exact absurd hop List.not_mem_nil
        | some ops =>
          rw [hk] at hop
          have hnew : (Operation.subscribe filter name reactions).Discreet quiet :=
            h.tasks _ List.mem_cons_self
          cases hnew with
          | subscribe _ _ _ hreactions => exact hreactions ops (List.mem_of_getElem? hk) op hop
      · exact h.plans r k op hop

theorem discreet_consequences (h : bus.Discreet quiet (t :: rest)) :
    ∀ t' ∈ bus.consequences t, t'.Discreet quiet (bus.after t) := by
  intro t' ht'
  cases t with
  | deliver d =>
    obtain ⟨op, hop, rfl⟩ := List.mem_map.mp ht'
    rw [reaction_eq_plan] at hop
    exact h.plans _ _ op hop
  | perform op =>
    cases op with
    | publish p =>
      obtain ⟨r, hr, rfl⟩ := List.mem_map.mp ht'
      obtain ⟨s, hs, rfl⟩ := List.mem_map.mp hr
      obtain ⟨hs, haccepts⟩ := List.mem_filter.mp hs
      exact fun hquiet => idle_after (h.idle s hs _ hquiet haccepts) _
    | unsubscribe filters => exact absurd ht' List.not_mem_nil
    | subscribe filter name reactions =>
      obtain ⟨m, hm, rfl⟩ := List.mem_map.mp ht'
      exact fun hquiet => idle_newcomer (h.tasks _ List.mem_cons_self) hquiet
        (mem_retainedFor.mp hm).1

theorem discreet_step (h : bus.Discreet quiet (t :: rest)) :
    (bus.after t).Discreet quiet (bus.consequences t ++ rest) := by
  refine ⟨idle_subscriptions_after h, discreet_plans_after h, fun t' ht' => ?_⟩
  rcases List.mem_append.mp ht' with hnew | hold
  · exact discreet_consequences h t' hnew
  · exact Task.discreet_after (h.tasks t' (List.mem_cons_of_mem t hold)) t

/-- Everything that comes of it is discreet too, and only clients hear of the topics. -/
theorem discreet_run {tasks : List Task} (h : bus.Discreet quiet tasks) :
    (bus.run tasks).1.Discreet quiet [] ∧
      ∀ d ∈ (bus.run tasks).2, d.message.topic ∈ quiet → ∃ n, d.receiver = .client n := by
  induction bus, tasks using run.induct with
  | case1 bus =>
    rw [run]
    exact ⟨h, fun d hd => absurd hd List.not_mem_nil⟩
  | case2 bus t rest ih =>
    obtain ⟨hlast, hdeliveries⟩ := ih (discreet_step h)
    rw [run]
    refine ⟨hlast, fun d hd hquiet => ?_⟩
    rcases List.mem_append.mp hd with hnow | hlater
    · cases t with
      | deliver d' =>
        obtain rfl := List.mem_singleton.mp hnow
        obtain ⟨⟨n, -, hn⟩, -⟩ := h.tasks _ List.mem_cons_self hquiet
        exact ⟨n, hn⟩
      | perform op => exact absurd hnow List.not_mem_nil
    · exact hdeliveries d hlater hquiet

theorem discreet_perform (h : bus.Discreet quiet []) {op : Operation} (hop : op.Discreet quiet) :
    (bus.perform op).1.Discreet quiet [] ∧
      ∀ d ∈ (bus.perform op).2, d.message.topic ∈ quiet → ∃ n, d.receiver = .client n :=
  discreet_run (discreet_singleton h hop)

end Discreet

/-! ## Two buses -/

/-- The buses differ at most in what is retained on the topics, in how often idle clients
were told, and in the record. -/
structure Alike (quiet : List String) (b b' : Bus) : Prop where
  subscriptions : b.subscriptions = b'.subscriptions
  clients : b.clients.length = b'.clients.length
  plan : ∀ r k, b.plan r k = b'.plan r k
  retained : ∀ topic ∉ quiet, b.retained.find? topic = b'.retained.find? topic

namespace Alike

variable {quiet : List String} {b b' b'' : Bus}

theorem refl (quiet : List String) (b : Bus) : Alike quiet b b :=
  ⟨rfl, rfl, fun _ _ => rfl, fun _ _ => rfl⟩

theorem symm (h : Alike quiet b b') : Alike quiet b' b :=
  ⟨h.subscriptions.symm, h.clients.symm, fun r k => (h.plan r k).symm,
    fun topic htopic => (h.retained topic htopic).symm⟩

theorem trans (h : Alike quiet b b') (h' : Alike quiet b' b'') : Alike quiet b b'' :=
  ⟨h.subscriptions.trans h'.subscriptions, h.clients.trans h'.clients,
    fun r k => (h.plan r k).trans (h'.plan r k),
    fun topic htopic => (h.retained topic htopic).trans (h'.retained topic htopic)⟩

end Alike

section Alike

variable {quiet : List String} {b b' : Bus}

theorem retained_afterReaction (bus : Bus) (r : Receiver) :
    (bus.afterReaction r).retained = bus.retained := by
  cases r <;> rfl

/-- Who is idle stays as he was. -/
theorem alike_deliver_idle {d : Delivery} (h : b.Idle d.receiver) :
    Alike quiet b (b.after (.deliver d)) := by
  refine ⟨?_, ?_, fun r k => ?_, fun topic _ => ?_⟩
  · rw [after, subscriptions_afterReaction]
  · rw [after, length_clients_afterReaction]
  · rw [after, plan_afterReaction]
    by_cases hr : d.receiver = r
    · rw [if_pos hr, ← hr, h.2, h.2]
    · rw [if_neg hr]
  · rw [after, retained_afterReaction]

theorem consequences_of_idle {d : Delivery} (h : b.Idle d.receiver) :
    b.consequences (.deliver d) = [] := by
  rw [consequences, reaction_eq_plan, h.2]
  rfl

theorem alike_after (h : Alike quiet b b') (t : Task) :
    Alike quiet (b.after t) (b'.after t) := by
  cases t with
  | deliver d =>
    refine ⟨?_, ?_, fun r k => ?_, fun topic htopic => ?_⟩
    · rw [after, after, subscriptions_afterReaction, subscriptions_afterReaction]
      exact h.subscriptions
    · rw [after, after, length_clients_afterReaction, length_clients_afterReaction]
      exact h.clients
    · rw [after, after, plan_afterReaction, plan_afterReaction]
      exact h.plan r _
    · rw [after, after, retained_afterReaction, retained_afterReaction]
      exact h.retained topic htopic
  | perform op =>
    cases op with
    | publish p =>
      refine ⟨h.subscriptions, h.clients, h.plan, fun topic htopic => ?_⟩
      rw [find?_retained_after_perform, find?_retained_after_perform, h.retained topic htopic]
    | unsubscribe filters =>
      refine ⟨?_, h.clients, h.plan, h.retained⟩
      exact congrArg (List.filter fun s => !filters.contains s.filter) h.subscriptions
    | subscribe filter name reactions =>
      refine ⟨?_, ?_, fun r k => ?_, h.retained⟩
      · show b.subscriptions ++ _ = b'.subscriptions ++ _
        rw [h.subscriptions, h.clients]
      · show (b.clients ++ _).length = (b'.clients ++ _).length
        rw [List.length_append, List.length_append, h.clients]
      · refine (plan_addClient (b.register filter _) name reactions r k).trans ?_
        refine Eq.trans ?_ (plan_addClient (b'.register filter _) name reactions r k).symm
        show (if r = .client b.clients.length then _ else b.plan r k) = _
        rw [h.clients, h.plan]
        rfl

/-- What is retained elsewhere is handed to a new listener in the same order. -/
theorem filter_retainedFor (h : Alike quiet b b') (filter : String) :
    (b.retainedFor filter).filter (fun m => !quiet.contains m.topic) =
      (b'.retainedFor filter).filter fun m => !quiet.contains m.topic := by
  have hentries : b.retained.entries.filter (fun e => !quiet.contains e.1) =
      b'.retained.entries.filter fun e => !quiet.contains e.1 := by
    refine SortedMap.entries_ext (b.retained.sorted.filter _) (b'.retained.sorted.filter _)
      fun e => ?_
    rw [List.mem_filter, List.mem_filter]
    refine and_congr_left fun hloud => ?_
    have htopic : e.1 ∉ quiet := by simpa using hloud
    obtain ⟨topic, payload⟩ := e
    show (topic, payload) ∈ b.retained.toList ↔ (topic, payload) ∈ b'.retained.toList
    rw [← SortedMap.find?_eq_some_iff, ← SortedMap.find?_eq_some_iff, h.retained topic htopic]
  have hfilter : ∀ bus : Bus, (bus.retainedFor filter).filter (fun m => !quiet.contains m.topic) =
      ((bus.retained.entries.filter fun e => !quiet.contains e.1).filter
        fun e => Topic.accepts filter e.1).map fun e => ⟨e.1, e.2⟩ := by
    intro bus
    rw [retainedFor, List.filter_map, List.filter_filter, List.filter_filter]
    simp only [Function.comp_def, Bool.and_comm]
    rfl
  rw [hfilter, hfilter, hentries]

theorem filter_loud_deliveries (f : Message → Delivery) (hf : ∀ m, (f m).message = m)
    (ms : List Message) :
    (ms.map fun m => Task.deliver (f m)).filter (Task.loud quiet) =
      (ms.filter fun m => !quiet.contains m.topic).map fun m => .deliver (f m) := by
  rw [List.filter_map]
  congr 1
  apply List.filter_congr
  intro m _
  show (!quiet.contains (f m).message.topic) = _
  rw [hf]

theorem filter_consequences (h : Alike quiet b b') (t : Task) :
    (b.consequences t).filter (Task.loud quiet) =
      (b'.consequences t).filter (Task.loud quiet) := by
  cases t with
  | deliver d => rw [consequences, consequences, reaction_eq_plan, reaction_eq_plan, h.plan]
  | perform op =>
    cases op with
    | publish p => rw [consequences, consequences, receivers, receivers, h.subscriptions]
    | unsubscribe filters => rfl
    | subscribe filter name reactions =>
      rw [consequences, consequences, h.clients,
        filter_loud_deliveries (fun m => ⟨.client b'.clients.length, m⟩) (fun _ => rfl),
        filter_loud_deliveries (fun m => ⟨.client b'.clients.length, m⟩) (fun _ => rfl),
        filter_retainedFor h]

/-- Quiet deliveries in front of a stack are made, and that is all. -/
theorem run_quiet_append {qs rest : List Task} (hd : b.Discreet quiet (qs ++ rest))
    (hqs : ∀ t ∈ qs, t.loud quiet = false) :
    ∃ (last : Bus) (ds : List Delivery), Alike quiet b last ∧ last.Discreet quiet rest ∧
      (∀ d ∈ ds, d.message.topic ∈ quiet) ∧
      b.run (qs ++ rest) = ((last.run rest).1, ds ++ (last.run rest).2) ∧
      b.publications (qs ++ rest) = last.publications rest := by
  induction qs generalizing b with
  | nil => exact ⟨b, [], .refl quiet b, hd, fun d hd => absurd hd List.not_mem_nil, rfl, rfl⟩
  | cons t qs ih =>
    obtain ⟨d, rfl, hquiet⟩ := Task.quiet_cases (hqs t List.mem_cons_self)
    have hidle : b.Idle d.receiver := hd.tasks _ List.mem_cons_self hquiet
    have hnext := discreet_step hd
    rw [consequences_of_idle hidle, List.nil_append] at hnext
    obtain ⟨last, ds, halike, hlast, hds, hrun, hpublications⟩ :=
      ih hnext fun t' ht' => hqs t' (List.mem_cons_of_mem _ ht')
    refine ⟨last, d :: ds, (alike_deliver_idle hidle).trans halike, hlast, ?_, ?_, ?_⟩
    · intro d' hd'
      rcases List.mem_cons.mp hd' with rfl | hd'
      · exact hquiet
      · exact hds d' hd'
    · show b.run (.deliver d :: (qs ++ rest)) = _
      rw [run, consequences_of_idle hidle, List.nil_append, hrun]
      rfl
    · show b.publications (.deliver d :: (qs ++ rest)) = _
      rw [publications, consequences_of_idle hidle, List.nil_append, hpublications]
      rfl

/-- The induction is on the first run.  Before the second one comes to the same task it makes
the quiet deliveries that stand in front of it. -/
theorem alike_run {ts ts' : List Task} (h : Alike quiet b b') (hd : b.Discreet quiet ts)
    (hd' : b'.Discreet quiet ts')
    (htasks : ts.filter (Task.loud quiet) = ts'.filter (Task.loud quiet)) :
    Alike quiet (b.run ts).1 (b'.run ts').1 ∧
      (b.run ts).2.filter (fun d => !quiet.contains d.message.topic) =
        (b'.run ts').2.filter fun d => !quiet.contains d.message.topic := by
  have hnone : ∀ ds : List Delivery, (∀ d ∈ ds, d.message.topic ∈ quiet) →
      ds.filter (fun d => !quiet.contains d.message.topic) = [] := fun ds hds =>
    List.filter_eq_nil_iff.mpr fun d hd => by simpa using hds d hd
  induction b, ts using run.induct generalizing b' ts' with
  | case1 b =>
    have hqs : ∀ t ∈ ts', t.loud quiet = false := fun t ht =>
      Bool.eq_false_iff.mpr (List.filter_eq_nil_iff.mp htasks.symm t ht)
    rw [← List.append_nil ts'] at hd'
    obtain ⟨last, ds, halike, -, hds, hrun, -⟩ := run_quiet_append hd' hqs
    rw [← List.append_nil ts', hrun, run, run]
    refine ⟨h.trans halike, ?_⟩
    rw [List.append_nil, hnone ds hds]
    rfl
  | case2 b t rest ih =>
    rw [run]
    cases hloud : t.loud quiet with
    | false =>
      obtain ⟨d, rfl, hquiet⟩ := Task.quiet_cases hloud
      have hidle : b.Idle d.receiver := hd.tasks _ List.mem_cons_self hquiet
      have hnext := discreet_step hd
      rw [List.filter_cons_of_neg (Bool.eq_false_iff.mp hloud)] at htasks
      rw [consequences_of_idle hidle, List.nil_append] at ih hnext ⊢
      obtain ⟨halike, hdeliveries⟩ :=
        ih ((alike_deliver_idle hidle).symm.trans h) hnext hd' htasks
      refine ⟨halike, ?_⟩
      rw [List.filter_append, hdeliveries, hnone _ fun d' hd' => ?_, List.nil_append]
      obtain rfl := List.mem_singleton.mp hd'
      exact hquiet
    | true =>
      rw [List.filter_cons_of_pos hloud] at htasks
      obtain ⟨qs, rest', rfl, hqs, -, hrest⟩ := List.filter_eq_cons_iff.mp htasks.symm
      obtain ⟨last, ds, hlast, hdlast, hds, hrun, -⟩ :=
        run_quiet_append hd' fun t ht => Bool.eq_false_iff.mpr (hqs t ht)
      have hsame : Alike quiet b last := h.trans hlast
      have hstacks : (b.consequences t ++ rest).filter (Task.loud quiet) =
          (last.consequences t ++ rest').filter (Task.loud quiet) := by
        rw [List.filter_append, List.filter_append, filter_consequences hsame, hrest]
      obtain ⟨halike, hdeliveries⟩ :=
        ih (alike_after hsame t) (discreet_step hd) (discreet_step hdlast) hstacks
      rw [hrun, run]
      refine ⟨halike, ?_⟩
      rw [List.filter_append, List.filter_append, List.filter_append, hdeliveries, hnone ds hds,
        List.nil_append]

/-- What is done on both buses leaves them alike, and everybody but clients is told the
same. -/
theorem alike_perform (h : Alike quiet b b') (hd : b.Discreet quiet [])
    (hd' : b'.Discreet quiet []) {op : Operation} (hop : op.Discreet quiet) :
    Alike quiet (b.perform op).1 (b'.perform op).1 ∧
      (b.perform op).2.filter (fun d => !quiet.contains d.message.topic) =
        (b'.perform op).2.filter fun d => !quiet.contains d.message.topic :=
  alike_run h (discreet_singleton hd hop) (discreet_singleton hd' hop) rfl

/-- A message on one of the topics is published, and that is all. -/
theorem perform_publish_quiet (hd : b.Discreet quiet []) {p : Publication}
    (hp : p.topic ∈ quiet) :
    Alike quiet b (b.perform (.publish p)).1 ∧
      (∀ d ∈ (b.perform (.publish p)).2, d.message.topic ∈ quiet) ∧
      b.publications [.perform (.publish p)] = [p] := by
  have hready : b.Discreet quiet [.perform (.publish p)] := discreet_singleton hd (.publish p)
  have hqs : ∀ t ∈ b.consequences (.perform (.publish p)), t.loud quiet = false := by
    intro t ht
    obtain ⟨r, -, rfl⟩ := List.mem_map.mp ht
    have hquiet : p.message.topic ∈ quiet := hp
    simpa [Task.loud] using hquiet
  have haccept : Alike quiet b (b.after (.perform (.publish p))) := by
    refine ⟨rfl, rfl, fun _ _ => rfl, fun topic htopic => ?_⟩
    have hother : p.topic ≠ topic := fun heq => htopic (heq ▸ hp)
    rw [find?_retained_after_perform, Operation.retains?, beq_false_of_ne hother, Bool.and_false]
    rfl
  obtain ⟨last, ds, halike, -, hds, hrun, hpublications⟩ :=
    run_quiet_append (discreet_step hready) hqs
  refine ⟨?_, ?_, ?_⟩
  · rw [perform, run, hrun, run]
    exact haccept.trans halike
  · rw [perform, run, hrun, run, List.append_nil]
    exact hds
  · rw [publications, hpublications, publications]
    rfl

end Alike

end Bus
end HomeSync
