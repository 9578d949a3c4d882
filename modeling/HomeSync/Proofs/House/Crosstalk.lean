import HomeSync.Proofs.Adapter.Derived
import HomeSync.Proofs.House.Retained

/-
Features that bring no topics along do not get into each other's way.

A message is taken in by the characteristic of the feature whose derived topic it is
published on, and by no other, since a derived topic belongs to one feature of one device.
Requests are published on topics of their own, so none of them is taken for a report.
-/
namespace HomeSync

namespace Inventory

/-- Deliveries to other receivers leave an accessory as it is. -/
theorem get?_foldl_deliver_of_apart {ds : List Delivery} {n : Nat}
    (h : ∀ d ∈ ds, ∀ code, d.receiver ≠ .characteristic n code) (inv : Inventory) :
    (ds.foldl deliver inv).get? n = inv.get? n := by
  induction ds generalizing inv with
  | nil => rfl
  | cons d rest ih =>
    have hd := h d List.mem_cons_self
    rw [List.foldl_cons, ih fun d' hd' => h d' (List.mem_cons_of_mem d hd')]
    cases hr : d.receiver with
    | characteristic k code =>
      have hk : k ≠ n := fun heq => hd code (heq ▸ hr)
      rw [deliver, hr]
      exact (get?_report ..).trans (if_neg hk)
    | client k => rw [deliver, hr]
    | announcements k => rw [deliver, hr]
    | departures k => rw [deliver, hr]

theorem ext_get? {inv inv' : Inventory} (h : ∀ n, inv.get? n = inv'.get? n) : inv = inv' :=
  congrArg Inventory.mk (List.ext_getElem? h)

end Inventory

namespace House

theorem inventory_hand (h : House) (p : Publication) :
    (h.hand p).hub.inventory =
      (h.hub.bus.direct (.publish p)).foldl Inventory.deliver h.hub.inventory :=
  inventory_foldl_receive _ _

/-- Where nobody answers, a publication does to the accessories what handing it out does. -/
theorem inventory_publish_of_silent {h : House} (hsilent : h.hub.bus.Silent) (p : Publication) :
    (h.publish p).hub.inventory = (h.hand p).hub.inventory := by
  have hop : (Operation.publish p).Silent := trivial
  obtain ⟨bus', hperform, -, -⟩ := Bus.perform_of_silent hsilent hop
  rw [inventory_hand, publish, perform, hperform]
  exact inventory_foldl_receive _ _

/-! ## Houses with derived topics -/

/-- The moves of a house where the adapter is told of devices as they are decoded or put
together, and nobody else unsubscribes. -/
def Announcing (_ : House) : Move → Prop
  | .tell (.updated d) => d.Grown
  | .tell (.removed _) | .write .. | .start _ => True
  | .operate op => op.Tame
  | .call _ | .follow _ | .handle => False

theorem unhindered_of_announcing {h : House} {m : Move} (hm : h.Announcing m) :
    h.Unhindered m := by
  cases m with
  | tell e =>
    cases e with
    | updated d => exact Device.made_of_grown hm
    | removed d => trivial
  | operate op => exact hm
  | write accessory characteristic v => trivial
  | start config => trivial
  | call c => exact hm.elim
  | follow listing => exact hm.elim
  | handle => exact hm.elim

/-- The characteristics are wired, and the features that they show have their names. -/
structure Labelled (h : House) : Prop where
  wired : h.Wired
  varied : h.hub.inventory.Varied
  built : h.hub.Built Device.Fitted

theorem labelled_step {h : House} (hl : h.Labelled) {m : Move} (hm : h.Announcing m) :
    (h.step m).Labelled := by
  have hs := hl.wired.sound
  have hfitted : ∀ d, h.told m = some (.updated d) → d.Fitted := by
    intro d htold
    cases m with
    | tell e =>
      obtain rfl : e = .updated d := Option.some.inj htold
      exact Device.fitted_of_grown hm
    | operate op => exact absurd htold (by simp [told])
    | write accessory characteristic v => exact absurd htold (by simp [told])
    | start config => exact absurd htold (by simp [told])
    | call c => exact hm.elim
    | follow listing => exact hm.elim
    | handle => exact hm.elim
  refine ⟨wired_step hl.wired (unhindered_of_announcing hm), varied_step hs hl.varied m, ?_⟩
  refine hub_step_keeps hs (fun _ hinstalled hfaces _ => Hub.built_of_faces hl.built hinstalled
    hfaces) fun e h' htold ht => Hub.built_of_takes hs hl.built (fun d heq => ?_) ht
  exact hfitted d (heq ▸ htold)

theorem labelled_create (recording : Bool) (info : Nameplate) :
    (House.create recording info).Labelled := by
  refine ⟨wired_create recording info, fun f hf => ?_, fun t i hfind => ?_⟩
  · exact absurd hf (by simp [House.create, Inventory.faces])
  · exact absurd hfind (by simp [House.create])

section Labelled

variable {h : House} (hl : h.Labelled) (hd : h.hub.Derived)
include hl hd

/-- A characteristic that hears a message is the one of a binding on that topic. -/
theorem binding_of_mem_receivers {topic : String} {n : Nat} {code : String}
    (hr : .characteristic n code ∈ h.hub.bus.receivers topic) :
    ∃ t i b, h.hub.installed.find? t = some i ∧ b ∈ i.bindings ∧ i.accessory = n ∧
      b.feature.getTopic = topic := by
  obtain ⟨s, hs, hreceiver⟩ := List.mem_map.mp hr
  obtain ⟨hs, haccepts⟩ := List.mem_filter.mp hs
  have hwire : s ∈ h.hub.bus.wires := List.mem_filter.mpr ⟨hs, by rw [hreceiver]; rfl⟩
  rw [hl.wired.wired.wires.mem_iff] at hwire
  obtain ⟨i, hi, hwire⟩ := List.mem_flatMap.mp hwire
  obtain ⟨t, hfind⟩ := SortedMap.mem_values_iff.mp hi
  obtain ⟨b, hb, rfl⟩ := List.mem_map.mp hwire
  have hplain := Hub.plain_getTopic hd (Hub.named_of_built hl.built) hfind hb
  exact ⟨t, i, b, hfind, hb, (Receiver.characteristic.inj hreceiver).1,
    (Topic.accepts_iff_of_plain hplain).mp haccepts⟩

/-- All characteristics that hear a message belong to one accessory. -/
theorem exists_accessory_of_receivers (topic : String) :
    ∃ n, ∀ k code, .characteristic k code ∈ h.hub.bus.receivers topic → k = n := by
  by_cases hany : ∃ n code, .characteristic n code ∈ h.hub.bus.receivers topic
  · obtain ⟨n, code, hr⟩ := hany
    refine ⟨n, fun k code' hr' => ?_⟩
    obtain ⟨t, i, b, hfind, hb, rfl, htopic⟩ := binding_of_mem_receivers hl hd hr
    obtain ⟨t', i', b', hfind', hb', rfl, htopic'⟩ := binding_of_mem_receivers hl hd hr'
    have hn := Hub.named_of_built hl.built
    obtain rfl := Hub.device_of_getTopic hd hn hfind hb hfind' hb' (htopic.trans htopic'.symm)
    rw [Option.some.inj (hfind.symm.trans hfind')]
  · exact ⟨0, fun k code hr => absurd ⟨k, code, hr⟩ hany⟩

theorem exists_accessory_of_hand (p : Publication) :
    ∃ n, ∀ k, k ≠ n → (h.hand p).hub.inventory.get? k = h.hub.inventory.get? k := by
  obtain ⟨n, hn⟩ := exists_accessory_of_receivers hl hd p.topic
  refine ⟨n, fun k hk => ?_⟩
  rw [inventory_hand]
  refine Inventory.get?_foldl_deliver_of_apart (fun d hmem code hr => hk ?_) _
  obtain ⟨r, hr', rfl⟩ := List.mem_map.mp hmem
  exact hn k code (hr ▸ hr')

/-- A request is no report to anybody. -/
theorem inventory_hand_request {p : Publication} {topic name : String}
    (hp : p.topic = topic ++ "/" ++ name ++ "/set") :
    (h.hand p).hub.inventory = h.hub.inventory := by
  rw [inventory_hand]
  refine Inventory.ext_get? fun n => Inventory.get?_foldl_deliver_of_apart ?_ _
  intro d hmem code heq
  obtain ⟨r, hr, rfl⟩ := List.mem_map.mp hmem
  obtain rfl : r = .characteristic n code := heq
  obtain ⟨t, i, b, hfind, hb, -, htopic⟩ := binding_of_mem_receivers hl hd hr
  exact Hub.getTopic_ne_request hd (Hub.named_of_built hl.built) hfind hb topic name
    (htopic.trans hp)

/-- What the characteristic of a binding does about a publication. -/
theorem findType?_hand {t : String} {i : Installed} (hfind : h.hub.installed.find? t = some i)
    {b : Binding} (hb : b ∈ i.bindings) (p : Publication) :
    ∃ a a' c, h.hub.inventory.get? i.accessory = some a ∧ a.findType? b.typeCode = some c ∧
      (h.hand p).hub.inventory.get? i.accessory = some a' ∧
      a'.findType? b.typeCode =
        some (if p.topic = t ++ "/" ++ b.feature.name ++ "/get" then c.report p.message.text
          else c) := by
  have hplain := Hub.plain_getTopic hd (Hub.named_of_built hl.built) hfind hb
  have hflags : ∀ d ∈ h.hub.bus.direct (.publish p), d.receiver.isFlag = false := by
    intro d hmem
    obtain ⟨r, hr, rfl⟩ := List.mem_map.mp hmem
    exact Bus.isFlag_of_mem_receivers hl.wired.sound.shielded hr
  obtain ⟨d, -, -, hbindings, face, hface, hblank⟩ := hl.built t i hfind
  obtain ⟨a, ha, rfl⟩ := Inventory.get?_of_faces_getElem? hface
  obtain ⟨c, hc, -⟩ := Accessory.findType?_of_blank hblank (hbindings ▸ hb)
  obtain ⟨a', ha', hears⟩ := Inventory.hears_foldl_deliver hflags ha
    (Inventory.varied_of_get? hl.varied ha)
  refine ⟨a, a', c, ha, hc, by rw [inventory_hand]; exact ha', ?_⟩
  rw [Accessory.findType?_of_hears hears, hc, addressed_of_wired hl.wired hfind hb hplain,
    Hub.getTopic_of_derived hd hfind hb, Option.map_some]
  split <;> rfl

end Labelled

/-- As long as all features report on the topics that were derived for them, a publication
is taken in by the characteristic of the feature whose topic it is made on, once, and by no
other.  So it changes the values of one accessory at most, and those of none if it is made
on the topic of a request. -/
theorem report_reaches_one (recording : Bool) (info : Nameplate) {moves : List Move}
    (hallowed : Allowed Announcing (House.create recording info) moves)
    (hderived : ((House.create recording info).run moves).hub.Derived) :
    let h := (House.create recording info).run moves
    ∀ p : Publication,
      (∀ t i, h.hub.installed.find? t = some i → ∀ b ∈ i.bindings,
        (h.hub.bus.receivers p.topic).count (.characteristic i.accessory b.typeCode) =
            (if p.topic = t ++ "/" ++ b.feature.name ++ "/get" then 1 else 0) ∧
          ∃ a a' c, h.hub.inventory.get? i.accessory = some a ∧ a.findType? b.typeCode = some c ∧
            (h.hand p).hub.inventory.get? i.accessory = some a' ∧
            a'.findType? b.typeCode =
              some (if p.topic = t ++ "/" ++ b.feature.name ++ "/get" then c.report p.message.text
                else c)) ∧
      (∃ n, ∀ k, k ≠ n → (h.hand p).hub.inventory.get? k = h.hub.inventory.get? k) ∧
      (∀ topic name, p.topic = topic ++ "/" ++ name ++ "/set" →
        (h.hand p).hub.inventory = h.hub.inventory) ∧
      (h.hub.bus.Silent → (h.publish p).hub.inventory = (h.hand p).hub.inventory) := by
  intro h p
  have hl : h.Labelled :=
    run_induct (P := Labelled) (fun _ _ hl hm => labelled_step hl hm)
      (labelled_create recording info) hallowed
  refine ⟨fun t i hfind b hb => ⟨?_, findType?_hand hl hderived hfind hb p⟩,
    exists_accessory_of_hand hl hderived p, fun _ _ => inventory_hand_request hl hderived,
    fun hsilent => inventory_publish_of_silent hsilent p⟩
  rw [← Hub.getTopic_of_derived hderived hfind hb]
  exact count_receivers_of_wired hl.wired hfind hb
    (Hub.plain_getTopic hderived (Hub.named_of_built hl.built) hfind hb) p.topic

/-- A lamp that leaves the topics of its features open. -/
def plainLamp (topic : String) : Device :=
  { (({ topic } : Device).addFeature "On" {}).addFeature "brightness" {} with
    deviceType := "lightbulb" }

theorem grown_plainLamp (topic : String) : (plainLamp topic).Grown :=
  .assign _ _ _ _ _ _ _ (.addFeature "brightness" _ (.addFeature "On" _ (.fresh topic)))

def plainLampMoves : List Move :=
  [.tell (.updated (plainLamp "hall/lamp")), .tell (.updated (plainLamp "attic/lamp"))]

theorem derived_plainLamps : ((House.create false {}).run plainLampMoves).hub.Derived := by
  have hall : ∀ e ∈ ((House.create false {}).run plainLampMoves).hub.installed.toList,
      Topic.Plain e.1 ∧ ∀ b ∈ e.2.bindings,
        b.feature = ({ b.feature with getTopic := "" } : Feature).attach e.1 b.feature.name := by
    decide +kernel
  intro t i hfind
  obtain ⟨hplain, hbindings⟩ := hall _ (SortedMap.find?_eq_some_iff.mp hfind)
  exact ⟨hplain, fun b hb => ⟨_, rfl, hbindings b hb⟩⟩

/-- Of two lamps one is told to be on. -/
theorem report_reaches_one_lamps :
    let h := (House.create false {}).run plainLampMoves
    Allowed Announcing (House.create false {}) plainLampMoves ∧ h.hub.Derived ∧
      (h.hub.bus.receivers "hall/lamp/On/get").count (.characteristic 0 "25") = 1 ∧
      (h.hub.bus.receivers "hall/lamp/On/get").count (.characteristic 1 "25") = 0 := by
  intro h
  have hallowed : Allowed Announcing (House.create false {}) plainLampMoves :=
    ⟨grown_plainLamp "hall/lamp", grown_plainLamp "attic/lamp", trivial⟩
  have hbound : ∀ e ∈ [("hall/lamp", 0), ("attic/lamp", 1)],
      (h.hub.installed.find? e.1).any fun i => i.accessory == e.2 &&
        i.bindings.any fun b => b.typeCode == "25" && b.feature.name == "On" := by
    decide +kernel
  have hcount : ∀ e ∈ [("hall/lamp", 0), ("attic/lamp", 1)],
      (h.hub.bus.receivers "hall/lamp/On/get").count (.characteristic e.2 "25") =
        if "hall/lamp/On/get" = e.1 ++ "/" ++ "On" ++ "/get" then 1 else 0 := by
    intro e he
    obtain ⟨i, hi, hbound⟩ := (Option.any_eq_true ..).mp (hbound e he)
    rw [Bool.and_eq_true, beq_iff_eq] at hbound
    obtain ⟨b, hb, hmatch⟩ := List.any_eq_true.mp hbound.2
    rw [Bool.and_eq_true, beq_iff_eq, beq_iff_eq] at hmatch
    have hcount := ((report_reaches_one false {} hallowed derived_plainLamps
      ⟨"hall/lamp/On/get", Utf8.encode "1", atLeastOnce, true⟩).1 e.1 i hi b hb).1
    rw [hbound.1, hmatch.1, hmatch.2] at hcount
    exact hcount
  refine ⟨hallowed, derived_plainLamps, (hcount ("hall/lamp", 0) (by simp)).trans ?_,
    (hcount ("attic/lamp", 1) (by simp)).trans ?_⟩
  all_goals decide +kernel

end House
end HomeSync
