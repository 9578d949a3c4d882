import HomeSync.Proofs.Adapter.Built
import HomeSync.Proofs.Adapter.Retained
import HomeSync.Proofs.Bus.Silent
import HomeSync.Proofs.House.Neighbours
import HomeSync.Proofs.House.Wiring

/-
The values of the accessories agree with what is retained on the bus.

A report that is published reaches each characteristic that follows its topic, and no
other, since the characteristics are wired as the installed accessories say.  If it is
retained it also becomes what a later subscriber is told.  So as long as everything on
a topic is retained, and nobody but the devices sets values, each value is what the
message retained on its topic reports, whatever is installed, replaced, removed or
subscribed again in between.
-/
namespace HomeSync

/-! ## Deliveries -/

namespace Inventory

/-- What a delivery does to the accessories. -/
def deliver (inv : Inventory) (d : Delivery) : Inventory :=
  match d.receiver with
  | .characteristic n code => inv.report n code d.message.text
  | _ => inv

/-- The messages of the deliveries that are made to a characteristic. -/
def addressed (ds : List Delivery) (n : Nat) (code : String) : List Message :=
  (ds.filter fun d => d.receiver == .characteristic n code).map (·.message)

theorem mem_addressed_iff {ds : List Delivery} {n : Nat} {code : String} {m : Message} :
    m ∈ addressed ds n code ↔ ⟨.characteristic n code, m⟩ ∈ ds := by
  simp only [addressed, List.mem_map, List.mem_filter, beq_iff_eq]
  constructor
  · rintro ⟨⟨receiver, m⟩, ⟨hd, rfl⟩, rfl⟩
    exact hd
  · exact fun hd => ⟨_, ⟨hd, rfl⟩, rfl⟩

theorem addressed_cons (d : Delivery) (ds : List Delivery) (n : Nat) (code : String) :
    addressed (d :: ds) n code =
      (if d.receiver = .characteristic n code then [d.message] else []) ++ addressed ds n code := by
  rw [addressed, addressed, List.filter_cons]
  by_cases hd : d.receiver = .characteristic n code
  · rw [if_pos hd, if_pos (beq_iff_eq.mpr hd), List.map_cons]
    rfl
  · rw [if_neg hd, if_neg (fun heq => hd (beq_iff_eq.mp heq)), List.nil_append]

/-- A delivery is heard by the characteristic that it is made to. -/
theorem hears_deliver {inv : Inventory} {d : Delivery} (hd : d.receiver.isFlag = false) {n : Nat}
    {a : Accessory} (ha : inv.get? n = some a) (hvaried : a.Varied) :
    ∃ a', (inv.deliver d).get? n = some a' ∧
      a.Hears (fun code => if d.receiver = .characteristic n code then [d.message] else []) a' := by
  obtain ⟨receiver, m⟩ := d
  cases receiver with
  | characteristic k code =>
    have hcode : code ≠ TypeCode.reachable := by simpa [Receiver.isFlag] using hd
    rw [deliver, get?_report, ha]
    by_cases hk : k = n
    · subst hk
      simp only [if_true, Receiver.characteristic.injEq, true_and, eq_comm (a := code)]
      exact ⟨_, rfl, Accessory.hears_hear hcode [m] hvaried⟩
    · simp only [hk, if_false, Receiver.characteristic.injEq, false_and]
      exact ⟨a, rfl, a.hears_refl⟩
  | client k => exact ⟨a, ha, a.hears_refl⟩
  | announcements k => exact ⟨a, ha, a.hears_refl⟩
  | departures k => exact ⟨a, ha, a.hears_refl⟩

theorem hears_foldl_deliver {ds : List Delivery} (hds : ∀ d ∈ ds, d.receiver.isFlag = false)
    {inv : Inventory} {n : Nat} {a : Accessory} (ha : inv.get? n = some a) (hvaried : a.Varied) :
    ∃ a', (ds.foldl deliver inv).get? n = some a' ∧ a.Hears (addressed ds n) a' := by
  induction ds generalizing inv a with
  | nil => exact ⟨a, ha, a.hears_refl⟩
  | cons d rest ih =>
    obtain ⟨a', ha', hears⟩ := hears_deliver (hds d List.mem_cons_self) ha hvaried
    obtain ⟨a'', ha'', hears'⟩ := ih (fun d' hd' => hds d' (List.mem_cons_of_mem d hd')) ha'
      (Accessory.varied_of_face hvaried hears.face)
    refine ⟨a'', ha'', ?_⟩
    have haddressed : addressed (d :: rest) n = fun code =>
        (if d.receiver = .characteristic n code then [d.message] else []) ++ addressed rest n code :=
      funext fun code => addressed_cons d rest n code
    rw [haddressed]
    exact Accessory.hears_trans hears hears'

end Inventory

namespace House

theorem inventory_receive (h : House) (d : Delivery) :
    (h.receive d).hub.inventory = h.hub.inventory.deliver d := by
  have hsendAll : ∀ n is, (h.sendAll n is).hub = h.hub :=
    sendAll_keeps (·.hub) (fun _ _ _ => rfl) h
  obtain ⟨receiver, m⟩ := d
  cases receiver with
  | client n => rfl
  | announcements n => exact congrArg Hub.inventory (hsendAll n _)
  | departures n => exact congrArg Hub.inventory (hsendAll n _)
  | characteristic n code => rfl

theorem inventory_foldl_receive (ds : List Delivery) (h : House) :
    (ds.foldl receive h).hub.inventory = ds.foldl Inventory.deliver h.hub.inventory := by
  induction ds generalizing h with
  | nil => rfl
  | cons d rest ih => rw [List.foldl_cons, ih, inventory_receive, List.foldl_cons]

/-! ## Publications -/

/-- Whether everything that a move publishes on a topic is retained. -/
def Move.Retains (topic : String) : Move → Prop
  | .operate (.publish p) => p.topic = topic → p.retain = true
  | _ => True

/-- Who of the characteristics hears a message is wired for it. -/
theorem filter_receivers (bus : Bus) (topic : String) :
    (bus.receivers topic).filter (·.isCharacteristic) =
      (bus.wires.filter fun s => Topic.accepts s.filter topic).map (·.receiver) := by
  rw [Bus.receivers, List.filter_map, Bus.wires, List.filter_filter, List.filter_filter]
  simp only [Function.comp_apply, Bool.and_comm]

/-- The characteristic of a binding hears what is published on the topic of the binding,
once, and nothing else. -/
theorem count_receivers_of_wired {h : House} (hw : h.Wired) {t : String} {i : Installed}
    (hfind : h.hub.installed.find? t = some i) {b : Binding} (hb : b ∈ i.bindings)
    (hplain : Topic.Plain b.feature.getTopic) (topic : String) :
    (h.hub.bus.receivers topic).count (.characteristic i.accessory b.typeCode) =
      if topic = b.feature.getTopic then 1 else 0 := by
  have hnodup := Hub.nodup_receivers hw.sound.orderly hw.wired
  have hwire : b.wire i.accessory ∈ h.hub.bus.wires := by
    rw [hw.wired.wires.mem_iff]
    exact List.mem_flatMap.mpr
      ⟨i, SortedMap.mem_values_iff.mpr ⟨t, hfind⟩, List.mem_map_of_mem hb⟩
  have hmem : .characteristic i.accessory b.typeCode ∈
      (h.hub.bus.wires.filter fun s => Topic.accepts s.filter topic).map (·.receiver) ↔
        topic = b.feature.getTopic := by
    rw [List.mem_map]
    constructor
    · rintro ⟨s, hs, hreceiver⟩
      obtain ⟨hs, haccepts⟩ := List.mem_filter.mp hs
      -- no characteristic is wired twice, so this is the wire of the binding
      obtain rfl : s = b.wire i.accessory := List.inj_on_of_nodup_map hnodup hs hwire hreceiver
      exact ((Topic.accepts_iff_of_plain hplain).mp haccepts).symm
    · rintro rfl
      refine ⟨b.wire i.accessory, List.mem_filter.mpr ⟨hwire, ?_⟩, rfl⟩
      exact (Topic.accepts_iff_of_plain hplain).mpr rfl
  rw [← List.count_filter (p := (·.isCharacteristic)) rfl, filter_receivers,
    List.Nodup.count (hnodup.sublist (List.filter_sublist.map _))]
  simp only [hmem]

/-- A publication is handed to a characteristic once for each of its subscriptions that
match. -/
theorem addressed_publish (bus : Bus) (p : Publication) (n : Nat) (code : String) :
    Inventory.addressed (bus.direct (.publish p)) n code =
      List.replicate ((bus.receivers p.topic).count (.characteristic n code)) p.message := by
  rw [Inventory.addressed, Bus.direct, List.filter_map, List.map_map, List.count_eq_length_filter]
  exact List.map_const'

theorem addressed_of_wired {h : House} (hw : h.Wired) {t : String} {i : Installed}
    (hfind : h.hub.installed.find? t = some i) {b : Binding} (hb : b ∈ i.bindings)
    (hplain : Topic.Plain b.feature.getTopic) (p : Publication) :
    Inventory.addressed (h.hub.bus.direct (.publish p)) i.accessory b.typeCode =
      if p.topic = b.feature.getTopic then [p.message] else [] := by
  rw [addressed_publish, count_receivers_of_wired hw hfind hb hplain]
  split <;> rfl

/-- A publication on another topic leaves what is retained on a topic. -/
theorem find?_retained_accept_of_ne (bus : Bus) {p : Publication} {topic : String}
    (hne : p.topic ≠ topic) :
    (bus.accept p).retained.find? topic = bus.retained.find? topic := by
  show SortedMap.find? (if _ then _ else _) topic = _
  split
  · split
    · rw [SortedMap.find?_erase, if_neg hne]
    · rw [SortedMap.find?_insert, if_neg hne]
  · rfl

/-- What is retained after a retained publication is what was published. -/
theorem payload_of_find?_retained_accept {bus : Bus} {p : Publication} (hretain : p.retain = true)
    {payload : Payload} (hfind : (bus.accept p).retained.find? p.topic = some payload) :
    payload = p.payload := by
  have hfind : SortedMap.find? (if p.retain then _ else _) p.topic = some payload := hfind
  rw [if_pos hretain] at hfind
  split at hfind
  · rw [SortedMap.find?_erase, if_pos rfl] at hfind
    exact absurd hfind (by simp)
  · rw [SortedMap.find?_insert, if_pos rfl] at hfind
    exact (Option.some.inj hfind).symm

/-! ## Agreement in a house -/

/-- The moves of a house where devices come, change and go, and others publish and
listen without acting on what they hear. -/
def Reporting (_ : House) : Move → Prop
  | .tell (.updated d) => d.Made
  | .tell (.removed _) | .start _ => True
  | .operate op => op.Silent
  | .write .. | .call _ | .follow _ | .handle => False

theorem unhindered_of_reporting {h : House} {m : Move} (hm : h.Reporting m) : h.Unhindered m := by
  cases m with
  | tell e => cases e <;> exact hm
  | operate op => exact Operation.tame_of_silent hm
  | start config => trivial
  | write accessory characteristic v => exact hm.elim
  | call c => exact hm.elim
  | follow listing => exact hm.elim
  | handle => exact hm.elim

/-- Nobody acts on what he hears, and the characteristics that follow a topic agree with
the bus. -/
structure Calm (topic : String) (h : House) : Prop where
  wired : h.Wired
  silent : h.hub.bus.Silent
  varied : h.hub.inventory.Varied
  built : h.hub.Built fun _ => True
  agrees : h.hub.Agrees topic

variable {topic : String}

/-- A characteristic that is addressed takes the message in, and the others stay as they
are. -/
theorem calm_perform {h : House} (hc : h.Calm topic) (hplain : Topic.Plain topic) {op : Operation}
    (hop : op.Silent) (hretains : (Move.operate op).Retains topic) :
    (h.perform op).hub.bus.Silent ∧ (h.perform op).hub.Agrees topic := by
  have hs := hc.wired.sound
  obtain ⟨bus', hperform, hsilent, hretained⟩ := Bus.perform_of_silent hc.silent hop
  have hbus : (h.perform op).hub.bus = bus' := by rw [bus_perform, hperform]
  have hinventory : (h.perform op).hub.inventory =
      (h.hub.bus.direct op).foldl Inventory.deliver h.hub.inventory := by
    rw [perform, hperform]
    exact inventory_foldl_receive _ _
  have hflags : ∀ d ∈ h.hub.bus.direct op, d.receiver.isFlag = false := by
    have hall := (Bus.shielded_perform hs.shielded op).2
    rw [hperform] at hall
    exact hall
  refine ⟨by rw [hbus]; exact hsilent, ?_⟩
  intro payload hpayload t i hfind b hb htopic a' c' ha' hc'
  rw [(untouched_perform hs.shielded op).1.installed] at hfind
  obtain ⟨a, ha⟩ := Hub.get?_of_installed hs hfind
  obtain ⟨a'', ha'', hears⟩ := Inventory.hears_foldl_deliver hflags ha
    (Inventory.varied_of_get? hc.varied ha)
  rw [hinventory] at ha'
  obtain rfl : a' = a'' := Option.some.inj (ha'.symm.trans ha'')
  rw [Accessory.findType?_of_hears hears] at hc'
  obtain ⟨c, hfound, rfl⟩ := Option.map_eq_some_iff.mp hc'
  rw [hbus, hretained] at hpayload
  subst htopic
  have hquiet : h.hub.bus.retained.find? b.feature.getTopic = some payload →
      (∀ m, m ∉ Inventory.addressed (h.hub.bus.direct op) i.accessory b.typeCode) →
      (c.hear (Inventory.addressed (h.hub.bus.direct op) i.accessory b.typeCode)).Shows
        (Utf8.decodeLossy payload) := fun hold hnone =>
    Characteristic.shows_hear_of_shows (fun m hm => absurd hm (hnone m))
      (hc.agrees payload hold t i hfind b hb rfl a c ha hfound)
  cases op with
  | publish p =>
    have haddressed := addressed_of_wired hc.wired hfind hb hplain p
    by_cases hp : p.topic = b.feature.getTopic
    · have hsame : payload = p.payload := by
        rw [← hp] at hpayload
        exact payload_of_find?_retained_accept (hretains hp) hpayload
      rw [haddressed, if_pos hp]
      refine Characteristic.shows_hear (List.cons_ne_nil _ _) fun m hm => ?_
      rw [List.mem_singleton.mp hm, hsame]
      rfl
    · rw [if_neg hp] at haddressed
      refine hquiet ?_ fun m => haddressed ▸ List.not_mem_nil
      rw [← find?_retained_accept_of_ne h.hub.bus hp]
      exact hpayload
  | subscribe filter name reactions =>
    -- what is replayed is addressed to the new client
    refine hquiet hpayload fun m hm => ?_
    obtain ⟨m', -, heq⟩ := List.mem_map.mp (Inventory.mem_addressed_iff.mp hm)
    exact absurd (congrArg Delivery.receiver heq) (by simp)
  | unsubscribe filters => exact hop.elim

theorem built_step {h : House} (hs : h.hub.Sound) (hbuilt : h.hub.Built fun _ => True) (m : Move) :
    (h.step m).hub.Built fun _ => True :=
  hub_step_keeps hs (fun _ hinstalled hfaces _ => Hub.built_of_faces hbuilt hinstalled hfaces)
    fun _ _ _ ht => Hub.built_of_takes hs hbuilt (fun _ _ => trivial) ht

theorem calm_step (hplain : Topic.Plain topic) {h : House} (hc : h.Calm topic) {m : Move}
    (hm : h.Reporting m ∧ m.Retains topic) : (h.step m).Calm topic := by
  have hs := hc.wired.sound
  have hboth : (h.step m).hub.bus.Silent ∧ (h.step m).hub.Agrees topic := by
    cases m with
    | operate op => exact calm_perform hc hplain hm.1 hm.2
    | start config => exact ⟨hc.silent, hc.agrees⟩
    | tell e =>
      have hattached : ∀ d, e = .updated d → d.Attached := by
        rintro d rfl
        exact Device.attached_of_made hm.1
      refine ⟨?_, Hub.agrees_of_cutting hs hc.varied hplain hc.agrees hattached
        (Hub.cutting_handle h.hub e)⟩
      show ∀ c ∈ (h.hub.handle e).bus.clients, _
      rw [Hub.clients_of_takes (Hub.takes_handle h.hub e)]
      exact hc.silent
    | write accessory characteristic v => exact hm.1.elim
    | call c => exact hm.1.elim
    | follow listing => exact hm.1.elim
    | handle => exact hm.1.elim
  exact ⟨wired_step hc.wired (unhindered_of_reporting hm.1), hboth.1, varied_step hs hc.varied m,
    built_step hs hc.built m, hboth.2⟩

theorem calm_create (recording : Bool) (info : Nameplate) :
    (House.create recording info).Calm topic := by
  refine ⟨wired_create recording info, ?_, ?_, ?_, ?_⟩
  · intro c hc
    exact absurd hc (by simp [House.create])
  · intro f hf
    exact absurd hf (by simp [House.create, Inventory.faces])
  · intro t i hfind
    exact absurd hfind (by simp [House.create])
  · intro payload hpayload
    exact absurd hpayload (by simp [House.create])

/-- As long as everything on the topic of a feature is retained, its characteristic has
the value that the retained message reports, if that is a report that counts. -/
theorem value_of_retained (recording : Bool) (info : Nameplate) {moves : List Move}
    (hallowed : Allowed Reporting (House.create recording info) moves) :
    let h := (House.create recording info).run moves
    ∀ topic i, h.hub.installed.find? topic = some i → ∀ b ∈ i.bindings,
      Topic.Plain b.feature.getTopic →
      (∀ p, .operate (.publish p) ∈ moves → p.topic = b.feature.getTopic → p.retain = true) →
      ∃ a c, h.hub.accessory? topic = some a ∧ a.findType? b.typeCode = some c ∧
        ∀ payload v, h.hub.bus.retained.find? b.feature.getTopic = some payload →
          Value.parse c.format (Utf8.decodeLossy payload) = some v → c.inBounds v = true →
          c.value = v := by
  intro h topic i hi b hb hplain hretained
  have hretains : ∀ m ∈ moves, m.Retains b.feature.getTopic := by
    intro m hm
    cases m with
    | operate op =>
      cases op with
      | publish p => exact hretained p hm
      | subscribe filter name reactions => trivial
      | unsubscribe filters => trivial
    | write accessory characteristic v => trivial
    | start config => trivial
    | tell e => trivial
    | call c => trivial
    | follow listing => trivial
    | handle => trivial
  have hc : h.Calm b.feature.getTopic :=
    run_induct (P := Calm b.feature.getTopic) (fun _ _ hc hm => calm_step hplain hc hm)
      (calm_create recording info) (allowed_and_of_forall_mem hallowed hretains)
  obtain ⟨d, -, -, hbindings, face, hface, hblank⟩ := hc.built topic i hi
  obtain ⟨a, ha, rfl⟩ := Inventory.get?_of_faces_getElem? hface
  rw [hbindings] at hb
  obtain ⟨c, hfound, -⟩ := Accessory.findType?_of_blank hblank hb
  rw [← hbindings] at hb
  refine ⟨a, c, ?_, hfound, fun payload v hpayload hparse hbounds => ?_⟩
  · rw [Hub.accessory?, hi]
    exact ha
  · refine hc.agrees payload hpayload topic i hi b hb rfl a c ha hfound v ?_
    rw [Characteristic.reported?, hparse, Option.filter_some, if_pos hbounds]

theorem made_sharingOutlet (topic : String) : (sharingOutlet topic).Made :=
  .assign topic "" "" "" "" "outlet" none false (.addFeature "on" _ (.fresh topic))

/-- Two outlets share a topic, and one of them goes after the last report. -/
def retainedMoves : List Move :=
  [.tell (.updated (sharingOutlet "hall/plug")),
    .operate (.publish ⟨"house/power", Utf8.encode "1", atLeastOnce, true⟩),
    .tell (.updated (sharingOutlet "attic/plug")),
    .operate (.publish ⟨"house/power", Utf8.encode "0", atLeastOnce, true⟩),
    .tell (.removed (sharingOutlet "hall/plug"))]

theorem run_retainedMoves :
    (House.create false {}).run retainedMoves =
      (((((House.create false {}).step (.tell (.updated (sharingOutlet "hall/plug")))).hand
        ⟨"house/power", Utf8.encode "1", atLeastOnce, true⟩).step
        (.tell (.updated (sharingOutlet "attic/plug")))).hand
          ⟨"house/power", Utf8.encode "0", atLeastOnce, true⟩).step
            (.tell (.removed (sharingOutlet "hall/plug"))) := by
  rw [← publish_eq_hand (List.isEmpty_iff.mp (by decide +kernel)),
    ← publish_eq_hand (List.isEmpty_iff.mp (by decide +kernel))]
  rfl

theorem value_of_retained_sharing :
    Allowed Reporting (House.create false {}) retainedMoves ∧
    ((House.create false {}).run retainedMoves).hub.bus.retained.find? "house/power" =
      some (Utf8.encode "0") ∧
    ((House.create false {}).run retainedMoves).shown? "attic/plug" "25" = some (.bool false) := by
  have hallowed : Allowed Reporting (House.create false {}) retainedMoves :=
    ⟨made_sharingOutlet "hall/plug", trivial, made_sharingOutlet "attic/plug", trivial, trivial,
      trivial⟩
  have hretained : ((House.create false {}).run retainedMoves).hub.bus.retained.find?
      "house/power" = some (Utf8.encode "0") := by
    rw [run_retainedMoves]
    decide +kernel
  have hbound : (((House.create false {}).run retainedMoves).hub.installed.find?
      "attic/plug").any fun i => i.bindings.any fun b =>
        b.typeCode == "25" && b.feature.getTopic == "house/power" := by
    rw [run_retainedMoves]
    decide +kernel
  have hformat : (((House.create false {}).run retainedMoves).hub.accessory? "attic/plug").any
      fun a => (a.findType? "25").any fun c => c.format == .bool := by
    rw [run_retainedMoves]
    decide +kernel
  refine ⟨hallowed, hretained, ?_⟩
  obtain ⟨i, hi, hbound⟩ := (Option.any_eq_true ..).mp hbound
  obtain ⟨b, hb, hbound⟩ := List.any_eq_true.mp hbound
  rw [Bool.and_eq_true, beq_iff_eq, beq_iff_eq] at hbound
  obtain ⟨hcode, htopic⟩ := hbound
  have hplain : Topic.Plain b.feature.getTopic := by
    rw [htopic]
    decide +kernel
  obtain ⟨a, c, ha, hc, hvalue⟩ := value_of_retained false {} hallowed "attic/plug" i hi b hb
    hplain fun p hp _ => by
      simp only [retainedMoves, List.mem_cons, List.not_mem_nil, or_false, reduceCtorEq,
        false_or, Move.operate.injEq, Operation.publish.injEq] at hp
      rcases hp with rfl | rfl <;> rfl
  rw [hcode] at hc
  rw [ha, Option.any_some, hc, Option.any_some, beq_iff_eq] at hformat
  rw [shown?, ha, Option.bind_some, hc, Option.map_some]
  refine congrArg some (hvalue (Utf8.encode "0") _ ?_ ?_ rfl)
  · rw [htopic]
    exact hretained
  · rw [hformat]
    decide +kernel

end House
end HomeSync
