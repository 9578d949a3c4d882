import HomeSync.Proofs.Bus.Silent
import HomeSync.Proofs.House.Routing
import HomeSync.Proofs.Registry.History
import HomeSync.Proofs.Text.Utf8

/-
What a leave message does to the devices that it names.

The token of a leave message is read without the blanks around it, and then it is compared
with topics and wills as they were announced, blanks included.  So a device whose will
begins or ends with a blank cannot be named.  Any other token comes through: the message is
put into the inbox behind what waits there, and when its turn comes every device with that
topic or will is marked as gone and stays registered.
-/
namespace HomeSync

namespace Bus

/-! ## Deliveries to routers -/

theorem mem_deliveries_of_run {bus : Bus} {tasks : List Task} {d : Delivery}
    (h : .deliver d ∈ tasks) : d ∈ (bus.run tasks).2 := by
  induction bus, tasks using run.induct with
  | case1 bus => exact absurd h List.not_mem_nil
  | case2 bus t rest ih =>
    rw [run]
    rcases List.mem_cons.mp h with rfl | h
    · exact List.mem_append_left _ (List.mem_singleton_self d)
    · exact List.mem_append_right _ (ih (List.mem_append_right _ h))

/-- Whatever is done about a publication, all who it is handed to are told of it. -/
theorem mem_deliveries_of_direct {bus : Bus} {op : Operation} {d : Delivery}
    (h : d ∈ bus.direct op) : d ∈ (bus.perform op).2 := by
  rw [perform, run, consequences_perform, List.append_nil]
  exact List.mem_append_right _ (mem_deliveries_of_run (List.mem_map_of_mem h))

/-- Of what follows from a task at once, a router is told of its own publication only. -/
theorem message_mem_of_mem_consequences {bus : Bus} {t : Task} {d : Delivery} {n : Nat}
    (hd : d.receiver.ofRouter n = true) (h : .deliver d ∈ bus.consequences t) :
    d.message ∈ t.publication?.toList.map (·.message) := by
  cases t with
  | deliver d' =>
    obtain ⟨op, -, hop⟩ := List.mem_map.mp h
    exact absurd hop (by simp)
  | perform op =>
    rw [consequences_perform] at h
    obtain ⟨d', hdirect, hsame⟩ := List.mem_map.mp h
    obtain rfl := Task.deliver.inj hsame
    cases op with
    | publish p =>
      obtain ⟨r, -, rfl⟩ := List.mem_map.mp hdirect
      exact List.mem_singleton_self _
    | subscribe filter name reactions =>
      obtain ⟨m, -, rfl⟩ := List.mem_map.mp hdirect
      exact absurd hd (by simp [Receiver.ofRouter])
    | unsubscribe filters => exact absurd hdirect List.not_mem_nil

/-- A router is told of nothing but what is published. -/
theorem message_mem_publications {bus : Bus} {tasks : List Task} {d : Delivery} {n : Nat}
    (hd : d.receiver.ofRouter n = true) (h : d ∈ (bus.run tasks).2) :
    .deliver d ∈ tasks ∨ d.message ∈ (bus.publications tasks).map (·.message) := by
  induction bus, tasks using run.induct with
  | case1 bus =>
    rw [run] at h
    exact absurd h List.not_mem_nil
  | case2 bus t rest ih =>
    rw [run] at h
    rw [publications, List.map_append]
    rcases List.mem_append.mp h with hnow | hlater
    · left
      cases t with
      | deliver d' =>
        obtain rfl := List.mem_singleton.mp hnow
        exact List.mem_cons_self
      | perform op => exact absurd hnow List.not_mem_nil
    · rcases ih hlater with htask | hpublished
      · rcases List.mem_append.mp htask with hnew | hold
        · exact .inr (List.mem_append_left _ (message_mem_of_mem_consequences hd hnew))
        · exact .inl (List.mem_cons_of_mem t hold)
      · exact .inr (List.mem_append_right _ hpublished)

theorem message_mem_burst {bus : Bus} {op : Operation} {d : Delivery} {n : Nat}
    (hd : d.receiver.ofRouter n = true) (h : d ∈ (bus.perform op).2) :
    d.message ∈ bus.burst op := by
  rcases message_mem_publications hd h with htask | hpublished
  · exact absurd (List.mem_singleton.mp htask) (by simp)
  · exact hpublished

end Bus

/-! ## The token -/

/-- A token without blanks around it is read as it was written. -/
theorem departure?_of_trim {m : Message} {token : String} (hpayload : m.payload = Utf8.encode token)
    (htrim : Text.trim token = token) (hne : token ≠ "") : departure? m = some (.leave token) := by
  have htext : m.text = token := by rw [Message.text, hpayload, Utf8.decodeLossy_encode]
  rw [departure?, htext, htrim, if_neg]
  rw [String.isEmpty_iff]
  exact hne

namespace RouterConfig

/-- A leave message is no announcement. -/
theorem announcement?_of_leave {m : Message} (h : m.topic = "leave") :
    announcement? {} m = none := by
  have hbelow : Topic.below? "announce" "leave" = none := by decide +kernel
  rw [announcement?, h]
  exact hbelow ▸ rfl

end RouterConfig

namespace Inbound

theorem effect_leave {topic token : String} {d : Device} (h : d.leavesWith token = true) :
    (Inbound.leave token).effect topic (some d) = some { d with reachable := false } := by
  rw [effect, Option.map_some, Device.afterLeave, if_pos h]

/-- To be named again makes no difference. -/
theorem foldl_effect_leave {topic token : String} {l : List Inbound}
    (h : ∀ i ∈ l, i = .leave token) (hne : l ≠ []) {d : Device} (hd : d.leavesWith token = true) :
    l.foldl (effect topic) (some d) = some { d with reachable := false } := by
  induction l generalizing d with
  | nil => exact absurd rfl hne
  | cons i rest ih =>
    rw [List.foldl_cons, h i List.mem_cons_self, effect_leave hd]
    cases rest with
    | nil => rfl
    | cons i' rest =>
      exact ih (fun j hj => h j (List.mem_cons_of_mem i hj)) (List.cons_ne_nil i' rest) hd

end Inbound

namespace House

/-! ## Turns of an inbox -/

/-- The router takes so many messages out of its inbox. -/
def routeFirst (h : House) (n : Nat) : Nat → House
  | 0 => h
  | k + 1 => (h.routeNext n).routeFirst n k

theorem routeFirst_of_append {h : House} {n : Nat} {config : RouterConfig}
    {ahead rest : List Inbound} (hrouter : h.routers[n]? = some ⟨config, ahead ++ rest⟩) :
    (h.routeFirst n ahead.length).registry = ahead.foldl Registry.apply h.registry ∧
      (h.routeFirst n ahead.length).routers[n]? = some ⟨config, rest⟩ := by
  induction ahead generalizing h with
  | nil => exact ⟨rfl, hrouter⟩
  | cons i ahead ih =>
    obtain ⟨hregistry, hrest, -⟩ := routeNext_of_cons hrouter
    obtain ⟨hlast, hrouter'⟩ := ih hrest
    exact ⟨hlast.trans (congrArg (ahead.foldl Registry.apply) hregistry), hrouter'⟩

section Leave

variable {h : House} {n : Nat} {inbox : List Inbound}
  (hrouter : h.routers[n]? = some ⟨{}, inbox⟩)
  {p : Publication} (htopic : p.topic = "leave") {token : String}
  (hpayload : p.payload = Utf8.encode token) (htrim : Text.trim token = token) (hne : token ≠ "")

/-- What an operation puts into the inbox of a router. -/
def arrivals (h : House) (n : Nat) (op : Operation) : List Inbound :=
  ((h.hub.bus.perform op).2.filter (·.receiver.ofRouter n)).flatMap (RouterConfig.inbound {})

include hrouter in
theorem router_publish (p : Publication) :
    (h.publish p).routers[n]? = some ⟨{}, inbox ++ h.arrivals n (.publish p)⟩ ∧
      (h.publish p).registry = h.registry := by
  refine ⟨router_foldl_receive (h := { h with hub.bus := (h.hub.bus.perform (.publish p)).1 })
    (h.hub.bus.perform (.publish p)).2 hrouter, ?_⟩
  exact perform_keeps (·.registry) (fun _ _ => rfl) (fun _ _ _ => rfl) (fun _ _ => rfl) h _

include htopic hpayload htrim hne in
theorem leave_mem_arrivals
    (hposts : ∀ s ∈ Bus.posts {} n, s ∈ h.hub.bus.subscriptions) :
    .leave token ∈ h.arrivals n (.publish p) := by
  have hreceiver : Receiver.departures n ∈ h.hub.bus.receivers p.topic := by
    have haccepts : Topic.accepts "leave" "leave" = true := by decide +kernel
    refine List.mem_map.mpr ⟨⟨"leave", .departures n⟩, List.mem_filter.mpr ⟨?_, ?_⟩, rfl⟩
    · exact hposts _ (List.mem_cons_of_mem _ (List.mem_singleton_self _))
    · rw [htopic]
      exact haccepts
  have hdelivery : ⟨.departures n, p.message⟩ ∈ (h.hub.bus.perform (.publish p)).2 :=
    Bus.mem_deliveries_of_direct (List.mem_map_of_mem hreceiver)
  refine List.mem_flatMap.mpr ⟨_, List.mem_filter.mpr ⟨hdelivery, beq_self_eq_true n⟩, ?_⟩
  rw [RouterConfig.inbound]
  dsimp only
  rw [departure?_of_trim hpayload htrim hne]
  exact List.mem_singleton_self _

include htopic hpayload htrim hne in
/-- If nothing else is published on account of it, the message is all that arrives. -/
theorem eq_leave_of_mem_arrivals (hburst : h.hub.bus.burst (.publish p) = [p.message])
    {i : Inbound} (hi : i ∈ h.arrivals n (.publish p)) : i = .leave token := by
  obtain ⟨d, hd, hi⟩ := List.mem_flatMap.mp hi
  obtain ⟨hd, hmine⟩ := List.mem_filter.mp hd
  have hmessage : d.message = p.message := by
    have hmem := Bus.message_mem_burst hmine hd
    rw [hburst] at hmem
    exact List.mem_singleton.mp hmem
  obtain ⟨receiver, m⟩ := d
  obtain rfl : m = p.message := hmessage
  cases receiver with
  | announcements k =>
    rw [RouterConfig.inbound] at hi
    dsimp only at hi
    rw [RouterConfig.announcement?_of_leave (m := p.message) htopic] at hi
    exact absurd hi List.not_mem_nil
  | departures k =>
    rw [RouterConfig.inbound] at hi
    dsimp only at hi
    rw [departure?_of_trim hpayload htrim hne] at hi
    exact List.mem_singleton.mp hi
  | client k => exact absurd hi List.not_mem_nil
  | characteristic k code => exact absurd hi List.not_mem_nil

end Leave

/-- Let a router with the default topics have its two subscriptions, and let a token without
blanks around it be published on the leave topic.  It waits in the inbox until what is ahead
of it is routed.  Then every device that has it as topic or will is marked as gone and stays
registered.  Where the inbox is empty and nobody publishes anything about the message, these
are the devices that are registered already. -/
theorem leave_reaches_devices {h : House} {n : Nat} {inbox : List Inbound}
    (hrouter : h.routers[n]? = some ⟨{}, inbox⟩)
    (hposts : ∀ s ∈ Bus.posts {} n, s ∈ h.hub.bus.subscriptions)
    {p : Publication} (htopic : p.topic = "leave") {token : String}
    (hpayload : p.payload = Utf8.encode token) (htrim : Text.trim token = token)
    (hne : token ≠ "") :
    ∃ (ahead behind : List Inbound) (due : House),
      (h.publish p).routers[n]? = some ⟨{}, inbox ++ ahead ++ .leave token :: behind⟩ ∧
      due = (h.publish p).routeFirst n (inbox ++ ahead).length ∧
      due.routers[n]? = some ⟨{}, .leave token :: behind⟩ ∧
      (∀ topic d, due.registry.devices.find? topic = some d →
        d.topic = token ∨ d.lastWill = some token →
        (due.routeNext n).registry.devices.find? topic = some { d with reachable := false }) ∧
      (inbox = [] → h.hub.bus.burst (.publish p) = [p.message] →
        ∀ topic d, h.registry.devices.find? topic = some d →
          d.topic = token ∨ d.lastWill = some token →
          ((h.publish p).routeAll n).registry.devices.find? topic =
            some { d with reachable := false }) := by
  have hnamed : ∀ d : Device, d.topic = token ∨ d.lastWill = some token →
      d.leavesWith token = true := by
    intro d hd
    rw [Device.leavesWith, Bool.or_eq_true, beq_iff_eq, beq_iff_eq]
    exact hd
  obtain ⟨hsent, hregistry⟩ := router_publish hrouter p
  have hmem := leave_mem_arrivals htopic hpayload htrim hne hposts
  obtain ⟨ahead, behind, harrivals⟩ := List.append_of_mem hmem
  have hinbox : (h.publish p).routers[n]? =
      some ⟨{}, inbox ++ ahead ++ .leave token :: behind⟩ := by
    rw [hsent, harrivals, List.append_assoc]
  obtain ⟨-, hdue⟩ := routeFirst_of_append hinbox
  refine ⟨ahead, behind, _, hinbox, rfl, hdue, fun topic d hfind hd => ?_, ?_⟩
  · rw [(routeNext_of_cons hdue).1, Registry.find?_apply, hfind, Inbound.effect_leave (hnamed d hd)]
  · rintro rfl hburst topic d hfind hd
    rw [registry_routeAll hsent, List.nil_append, Registry.find?_foldl_apply, hregistry, hfind]
    exact Inbound.foldl_effect_leave
      (fun i => eq_leave_of_mem_arrivals htopic hpayload htrim hne hburst)
      (List.ne_nil_of_mem hmem) (hnamed d hd)

/-- A fan that gives a will with blanks around it. -/
def fanWithWill : Publication :=
  ⟨"announce/attic/fan", Utf8.encode "\x7b\"lastWillID\":\" fan-7 \"\x7d", atLeastOnce, true⟩

/-- A house with a router that has taken the announcement of the fan in. -/
def fanHouse : House := (((House.create false {}).startRouter {}).publish fanWithWill).routeAll 0

theorem fanHouse_eq :
    fanHouse = (((House.create false {}).startRouter {}).hand fanWithWill).routeAll 0 := by
  rw [fanHouse, publish_eq_hand rfl]

theorem leave_reaches_devices_fan :
    let leave : Publication := ⟨"leave", Utf8.encode "attic/fan", atLeastOnce, false⟩
    fanHouse.routers[0]? = some ⟨{}, []⟩ ∧
      (∀ s ∈ Bus.posts {} 0, s ∈ fanHouse.hub.bus.subscriptions) ∧
      Text.trim "attic/fan" = "attic/fan" ∧ fanHouse.hub.bus.burst (.publish leave) = [leave.message] ∧
      ((fanHouse.publish leave).routeAll 0).registry.devices.find? "attic/fan" =
        some { topic := "attic/fan", lastWill := some " fan-7 ", reachable := false } := by
  intro leave
  rw [fanHouse_eq]
  generalize hhouse : (((House.create false {}).startRouter {}).hand fanWithWill).routeAll 0 = h
  have hrouter : h.routers[0]? = some ⟨{}, []⟩ := by
    rw [← hhouse]
    decide +kernel
  have hposts : ∀ s ∈ Bus.posts {} 0, s ∈ h.hub.bus.subscriptions := by
    rw [← hhouse]
    decide +kernel
  have htrim : Text.trim "attic/fan" = "attic/fan" := by decide +kernel
  have hburst : h.hub.bus.burst (.publish leave) = [leave.message] :=
    Bus.burst_publish (by rw [← hhouse]; rfl) leave
  have hfind : h.registry.devices.find? "attic/fan" =
      some { topic := "attic/fan", lastWill := some " fan-7 ", reachable := true } := by
    rw [← hhouse]
    decide +kernel
  obtain ⟨ahead, behind, due, -, -, -, -, hrouted⟩ :=
    leave_reaches_devices hrouter hposts (p := leave) rfl rfl htrim (by decide)
  exact ⟨hrouter, hposts, htrim, hburst, hrouted rfl hburst _ _ hfind (.inl rfl)⟩

/-- The will of the fan is not read as it was written, and so the fan stays. -/
theorem leave_misses_blank_will :
    let leave : Publication := ⟨"leave", Utf8.encode " fan-7 ", atLeastOnce, false⟩
    (∀ s ∈ Bus.posts {} 0, s ∈ fanHouse.hub.bus.subscriptions) ∧
      fanHouse.registry.devices.find? "attic/fan" =
        some { topic := "attic/fan", lastWill := some " fan-7 ", reachable := true } ∧
      ((fanHouse.publish leave).routeAll 0).registry.devices.find? "attic/fan" =
        some { topic := "attic/fan", lastWill := some " fan-7 ", reachable := true } := by
  intro leave
  rw [fanHouse_eq, publish_eq_hand rfl]
  decide +kernel

end House
end HomeSync
