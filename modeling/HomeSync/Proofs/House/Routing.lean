import HomeSync.Proofs.Adapter.Foreign
import HomeSync.Proofs.House.Moves

/-
What a router makes of the registry.

From its start on a router takes in what the bus delivers to it, in one inbox.  Once
the inbox is routed, the registry has got the announcements and the leave messages of
all that was retained at the start and of all that was published since, and nothing
else.  The messages come in the order of the operations that brought them; only the
messages that clients publish while they are told of another one may change places
with it.
-/
namespace HomeSync

namespace RouterConfig

/-- What a router puts into its inbox on a delivery. -/
def inbound (c : RouterConfig) (d : Delivery) : List Inbound :=
  match d.receiver with
  | .announcements _ => (c.announcement? d.message).toList
  | .departures _ => (departure? d.message).toList
  | _ => []

end RouterConfig

namespace Bus

/-- Operations that are performed one after the other, each with the bus that it is
performed on. -/
def performances (bus : Bus) : List Operation → List (Bus × Operation)
  | [] => []
  | op :: rest => (bus, op) :: (bus.perform op).1.performances rest

end Bus

namespace House

section Tuned

variable {h : House} {config : RouterConfig} {n : Nat}

theorem registry_routeAll {inbox : List Inbound} (hrouter : h.routers[n]? = some ⟨config, inbox⟩) :
    (h.routeAll n).registry = inbox.foldl Registry.apply h.registry := by
  rw [routeAll, hrouter]
  rfl

theorem router_sendAll (k : Nat) (is : List Inbound) {inbox : List Inbound}
    (hrouter : h.routers[n]? = some ⟨config, inbox⟩) :
    (h.sendAll k is).routers[n]? = some ⟨config, inbox ++ if k = n then is else []⟩ := by
  induction is generalizing h inbox with
  | nil => rw [ite_self, List.append_nil]; exact hrouter
  | cons i rest ih =>
    have hfirst : (h.send k i).routers[n]? = some ⟨config, inbox ++ if k = n then [i] else []⟩ := by
      rw [send, List.getElem?_modify, hrouter]
      by_cases hk : k = n
      · rw [if_pos hk]
        simp [hk, Router.receive]
      · rw [if_neg hk]
        simp [hk]
    have hrest := ih hfirst
    rw [List.append_assoc] at hrest
    by_cases hk : k = n
    · rw [if_pos hk, if_pos hk] at hrest
      rw [if_pos hk]
      exact hrest
    · rw [if_neg hk, if_neg hk] at hrest
      rw [if_neg hk]
      exact hrest

theorem router_receive (d : Delivery) {inbox : List Inbound}
    (hrouter : h.routers[n]? = some ⟨config, inbox⟩) :
    (h.receive d).routers[n]? =
      some ⟨config, inbox ++ if d.receiver.ofRouter n then config.inbound d else []⟩ := by
  obtain ⟨receiver, m⟩ := d
  have hsame : some (⟨config, inbox⟩ : Router) = some ⟨config, inbox ++ []⟩ := by
    rw [List.append_nil]
  cases receiver with
  | client k => exact hrouter.trans hsame
  | characteristic k code => exact hrouter.trans hsame
  | departures k =>
    rw [receive, router_sendAll k _ hrouter]
    by_cases hk : k = n
    · simp [hk, Receiver.ofRouter, RouterConfig.inbound]
    · simp [hk, Receiver.ofRouter]
  | announcements k =>
    rw [receive, router_sendAll k _ hrouter]
    by_cases hk : k = n
    · simp [hk, hrouter, Receiver.ofRouter, RouterConfig.inbound]
    · simp [hk, Receiver.ofRouter]

theorem router_foldl_receive (ds : List Delivery) {inbox : List Inbound}
    (hrouter : h.routers[n]? = some ⟨config, inbox⟩) :
    (ds.foldl receive h).routers[n]? =
      some ⟨config, inbox ++ (ds.filter (·.receiver.ofRouter n)).flatMap config.inbound⟩ := by
  induction ds generalizing h inbox with
  | nil => rw [List.filter_nil, List.flatMap_nil, List.append_nil]; exact hrouter
  | cons d rest ih =>
    rw [List.foldl_cons, ih (router_receive d hrouter), List.append_assoc, List.filter_cons]
    by_cases hd : d.receiver.ofRouter n = true
    · rw [if_pos hd, if_pos hd, List.flatMap_cons]
    · rw [if_neg hd, if_neg hd, List.nil_append]

end Tuned

/-! ## Time and routing -/

/-- What can happen on the bus while a router is at work. -/
inductive Activity where
  | operate (op : Operation)
  /-- Time passes, and what is due by then is published. -/
  | wait (duration : Nat)
  /-- The router takes its oldest message. -/
  | route

/-- What is due, the earliest first. -/
def due (h : House) : List Alarm :=
  (h.alarms.filter fun a => a.due ≤ h.clock).mergeSort fun a b => a.due ≤ b.due

def later (h : House) (duration : Nat) : House := { h with clock := h.clock + duration }

def act (n : Nat) (h : House) : Activity → House
  | .operate op => h.perform op
  | .wait duration => (h.later duration).ring
  | .route => h.routeNext n

/-- The operations on the bus that come of an activity. -/
def operations (h : House) : Activity → List Operation
  | .operate op => [op]
  | .wait duration => (h.later duration).due.map fun a => .publish a.publication
  | .route => []

/-- The operations that come of a list of activities, each with the bus that it is
performed on. -/
def performances (n : Nat) : House → List Activity → List (Bus × Operation)
  | _, [] => []
  | h, a :: rest => h.hub.bus.performances (h.operations a) ++ performances n (h.act n a) rest

section Activity

variable {h : House} {config : RouterConfig} {n : Nat}

theorem routeNext_of_cons {i : Inbound} {inbox : List Inbound}
    (hrouter : h.routers[n]? = some ⟨config, i :: inbox⟩) :
    (h.routeNext n).registry = h.registry.apply i ∧
      (h.routeNext n).routers[n]? = some ⟨config, inbox⟩ ∧ (h.routeNext n).hub = h.hub := by
  rw [routeNext, hrouter]
  refine ⟨rfl, ?_, rfl⟩
  rw [List.getElem?_modify_eq, hrouter]
  rfl

theorem routeNext_of_nil (hrouter : h.routers[n]? = some ⟨config, []⟩) : h.routeNext n = h := by
  rw [routeNext, hrouter]

end Activity

/-! ## The start -/

/-- No subscription is for a router that has not started yet. -/
def Numbered (h : House) : Prop :=
  ∀ s ∈ h.hub.bus.subscriptions, ∀ n, s.receiver.ofRouter n = true → n < h.routers.length

theorem numbered_of_mem {h h' : House} (hn : h.Numbered)
    (hmem : ∀ s ∈ h'.hub.bus.subscriptions, ∀ n, s.receiver.ofRouter n = true →
      s ∈ h.hub.bus.subscriptions)
    (hrouters : h'.routers.length = h.routers.length) : h'.Numbered := by
  intro s hs n hrouter
  rw [hrouters]
  exact hn s (hmem s hs n hrouter) n hrouter

theorem numbered_perform {h : House} (hn : h.Numbered) (op : Operation) :
    (h.perform op).Numbered := by
  refine numbered_of_mem hn (fun s hs n hrouter => ?_) ?_
  · rw [bus_perform] at hs
    exact Bus.mem_subscriptions_of_run hrouter hs
  · exact perform_keeps (·.routers.length) (fun _ _ => rfl) (fun _ _ _ => List.length_modify ..)
      (fun _ _ => rfl) h op

theorem numbered_handle {h h' : House} (hn : h.Numbered) (e : Event)
    (hhub : h'.hub = h.hub.handle e) (hrouters : h'.routers = h.routers) : h'.Numbered := by
  refine numbered_of_mem hn (fun s hs n hrouter => ?_) (by rw [hrouters])
  -- the adapter only makes subscriptions for characteristics
  have hforeign : s ∈ (h.hub.handle e).bus.foreign := by
    rw [hhub] at hs
    refine List.mem_filter.mpr ⟨hs, ?_⟩
    cases hr : s.receiver <;> simp [hr, Receiver.ofRouter] at hrouter <;> rfl
  rw [Hub.foreign_of_cutting (Hub.cutting_handle h.hub e)] at hforeign
  exact (List.mem_filter.mp (List.mem_filter.mp hforeign).1).1

theorem numbered_step {h : House} (hn : h.Numbered) (m : Move) : (h.step m).Numbered := by
  cases m with
  | call c => exact numbered_of_mem hn (fun _ hs _ _ => hs) rfl
  | follow listing => exact numbered_of_mem hn (fun _ hs _ _ => hs) rfl
  | tell e => exact numbered_handle hn e rfl rfl
  | operate op => exact numbered_perform hn op
  | handle =>
    rw [step, handleNext]
    split
    · exact hn
    · split
      · exact hn
      · exact numbered_handle hn _ rfl rfl
  | write accessory characteristic v =>
    rw [step]
    cases hw : h.write? accessory characteristic v with
    | none => exact hn
    | some h' =>
      obtain ⟨k, -, hk⟩ := Option.bind_eq_some_iff.mp hw
      obtain ⟨a, c, written, stored, -, -, -, hstored, hh'⟩ := writeWhere?_cases hk
      have hkept : stored.Numbered := by
        rw [hstored]
        exact numbered_of_mem hn (fun _ hs _ _ => hs) rfl
      rcases hh' with rfl | ⟨note, rfl⟩ | ⟨p, rfl⟩
      · exact hkept
      · exact numbered_of_mem hkept (fun _ hs _ _ => hs) rfl
      · exact numbered_perform hkept (.publish p)
  | start config =>
    intro s hs n hrouter
    have hlength : (h.startRouter config).routers.length = h.routers.length + 1 :=
      List.length_append
    rw [step, hlength]
    -- the new subscriptions are for the new router
    rcases List.mem_append.mp hs with hs | hs
    · rcases List.mem_append.mp hs with hs | hs
      · exact Nat.lt_succ_of_lt (hn s hs n hrouter)
      · rw [List.mem_singleton.mp hs] at hrouter
        rw [← beq_iff_eq.mp hrouter]
        exact Nat.lt_succ_self _
    · rw [List.mem_singleton.mp hs] at hrouter
      rw [← beq_iff_eq.mp hrouter]
      exact Nat.lt_succ_self _

end House

namespace Bus

/-- All retained messages, by topic. -/
def stored (bus : Bus) : List Message := bus.retained.toList.map fun e => ⟨e.1, e.2⟩

end Bus

namespace House

end House
end HomeSync
