import HomeSync.Proofs.Adapter.Neighbours
import HomeSync.Proofs.Bus.Levels
import HomeSync.Proofs.Bus.Silent

/-
Changes of devices and what is retained for their features.

A characteristic agrees with the bus if its value is what the message retained on its
topic reports.  Whoever subscribes is handed what is retained, so a new accessory
agrees from the start, and one that is subscribed again hears nothing but what it
agrees with already.  All this is about topics without wildcards, where there is at
most one retained message to hear.
-/
namespace HomeSync

namespace Bus

/-- A filter without wildcards stands for what is retained on one topic. -/
theorem mem_retainedFor_iff {bus : Bus} {filter : String} (hplain : Topic.Plain filter)
    {m : Message} :
    m ∈ bus.retainedFor filter ↔
      m.topic = filter ∧ bus.retained.find? filter = some m.payload := by
  rw [mem_retainedFor, Topic.accepts_iff_of_plain hplain, eq_comm]
  refine and_congr_right fun htopic => ?_
  rw [htopic]

theorem mem_retainedFor_of_mem_reports {bus : Bus} {f : Feature} {m : Message}
    (hm : m ∈ bus.reports f) : m ∈ bus.retainedFor f.getTopic := by
  by_cases hf : f.isAttached = true
  · rwa [reports_of_attached bus hf] at hm
  · rw [reports_of_detached bus hf] at hm
    exact absurd hm (by simp)

end Bus

namespace Hub

/-! ## What is retained stays -/

theorem retained_followAll (l : List (Nat × Binding)) (h : Hub) :
    (h.followAll l).bus.retained = h.bus.retained :=
  followAll_keeps (fun g => g.bus.retained) (fun p _ g => retained_follow g p.1 p.2) h

theorem retained_attach (h : Hub) (i : Installed) :
    (h.attach i).bus.retained = h.bus.retained := by
  rw [attach_eq_followAll, retained_followAll]

theorem retained_detach (h : Hub) (i : Installed) (remaining : SortedMap String Installed) :
    (h.detach i remaining).bus.retained = h.bus.retained := by
  rw [detach_eq_followAll, retained_followAll]
  rfl

theorem retained_of_cutting {h h' : Hub} {e : Event} {topics : List String}
    (hc : h.Cutting e topics h') : h'.bus.retained = h.bus.retained := by
  cases hc with
  | install hnew =>
    rw [bus_install, retained_attach]
    rfl
  | keep hfind => rfl
  | renew hfind =>
    rw [bus_renew, retained_attach, retained_detach]
    rfl
  | ignore => rfl
  | teardown hfind => exact retained_detach h _ _

/-! ## Agreement -/

/-- Every characteristic that follows a topic shows what is retained on it, as far as
that is a report that counts. -/
def Agrees (topic : String) (h : Hub) : Prop :=
  ∀ payload, h.bus.retained.find? topic = some payload →
    ∀ t i, h.installed.find? t = some i → ∀ b ∈ i.bindings, b.feature.getTopic = topic →
      ∀ a c, h.inventory.get? i.accessory = some a → a.findType? b.typeCode = some c →
        c.Shows (Utf8.decodeLossy payload)

/-- In one accessory no two bindings are of one type. -/
theorem binding_eq_of_typeCode {h : Hub} (ho : h.Orderly) {t : String} {i : Installed}
    (hfind : h.installed.find? t = some i) {b b' : Binding} (hb : b ∈ i.bindings)
    (hb' : b' ∈ i.bindings) (heq : b.typeCode = b'.typeCode) : b = b' := by
  obtain ⟨d, hd⟩ := ho.made t i hfind
  rw [hd] at hb hb'
  exact List.inj_on_of_nodup_map (Device.nodup_bindings d) hb hb' heq

theorem mem_heard_iff {h : Hub} {l : List (Nat × Binding)} {n : Nat} {code : String}
    {m : Message} :
    m ∈ h.heard l n code ↔
      ∃ p ∈ l, p.1 = n ∧ p.2.typeCode = code ∧ m ∈ h.bus.reports p.2.feature := by
  simp only [heard, List.mem_flatMap, List.mem_filter, Bool.and_eq_true, beq_iff_eq, and_assoc]

section Change

variable {h : Hub} {topic : String} {payload : Payload}

/-- What is retained on a topic is all that is reported to those who follow it. -/
theorem text_of_mem_reports (hplain : Topic.Plain topic)
    (hretained : h.bus.retained.find? topic = some payload) {f : Feature}
    (hf : f.getTopic = topic) {m : Message} (hm : m ∈ h.bus.reports f) :
    m.text = Utf8.decodeLossy payload := by
  have hmem := Bus.mem_retainedFor_of_mem_reports hm
  rw [hf, Bus.mem_retainedFor_iff hplain, hretained, Option.some.injEq] at hmem
  rw [Message.text, hmem.2]

/-- An accessory that stays in place hears again what it shows already. -/
theorem shows_of_stays (ho : h.Orderly) (hplain : Topic.Plain topic) (hagrees : h.Agrees topic)
    (hretained : h.bus.retained.find? topic = some payload) {t : String} {i : Installed}
    (hfind : h.installed.find? t = some i) {h' : Hub} {topics : List String}
    (hstays : h.Stays t i (h.redelivered topics i) h') {b : Binding} (hb : b ∈ i.bindings)
    (htopic : b.feature.getTopic = topic) {a' : Accessory}
    (ha' : h'.inventory.get? i.accessory = some a') {c' : Characteristic}
    (hc' : a'.findType? b.typeCode = some c') : c'.Shows (Utf8.decodeLossy payload) := by
  obtain ⟨a, a'', ha, ha'', hears⟩ := hstays.hears
  obtain rfl : a' = a'' := Option.some.inj (ha'.symm.trans ha'')
  rw [Accessory.findType?_of_hears hears] at hc'
  obtain ⟨c, hc, rfl⟩ := Option.map_eq_some_iff.mp hc'
  refine Characteristic.shows_hear_of_shows (fun m hm => ?_)
    (hagrees payload hretained t i hfind b hb htopic a c ha hc)
  obtain ⟨b', hb', hreported⟩ := List.mem_flatMap.mp hm
  obtain ⟨hmem, htest⟩ := List.mem_filter.mp hb'
  rw [Bool.and_eq_true, beq_iff_eq] at htest
  obtain rfl := binding_eq_of_typeCode ho hfind hmem hb htest.1
  exact text_of_mem_reports hplain hretained htopic hreported

/-- An accessory that is being attached hears what is retained for it. -/
theorem shows_of_attach {i : Installed} (hcode : ∀ b ∈ i.bindings, b.typeCode ≠ TypeCode.reachable)
    (hnodup : (i.bindings.map Binding.typeCode).Nodup) {g : Hub} {a : Accessory}
    (ha : g.inventory.get? i.accessory = some a) (hvaried : a.Varied)
    (hplain : Topic.Plain topic) (hretained : g.bus.retained.find? topic = some payload)
    {b : Binding} (hb : b ∈ i.bindings) (hattached : b.feature.isAttached = true)
    (htopic : b.feature.getTopic = topic) {a' : Accessory}
    (ha' : (g.attach i).inventory.get? i.accessory = some a') {c' : Characteristic}
    (hc' : a'.findType? b.typeCode = some c') : c'.Shows (Utf8.decodeLossy payload) := by
  have hcodes : ∀ p ∈ i.bindings.map (i.accessory, ·), p.2.typeCode ≠ TypeCode.reachable := by
    intro p hp
    obtain ⟨b, hb, rfl⟩ := List.mem_map.mp hp
    exact hcode b hb
  rw [attach_eq_followAll] at ha'
  obtain ⟨a'', ha'', hears⟩ := hears_followAll hcodes g ha hvaried
  obtain rfl : a' = a'' := Option.some.inj (ha'.symm.trans ha'')
  rw [Accessory.findType?_of_hears hears] at hc'
  obtain ⟨c, hc, rfl⟩ := Option.map_eq_some_iff.mp hc'
  apply Characteristic.shows_hear
  · -- the feature is attached, so at least its own report is heard
    apply List.ne_nil_of_mem (a := (⟨topic, payload⟩ : Message))
    refine mem_heard_iff.mpr ⟨_, List.mem_map_of_mem hb, rfl, rfl, ?_⟩
    rw [Bus.reports_of_attached g.bus hattached, htopic, Bus.mem_retainedFor_iff hplain]
    exact ⟨rfl, hretained⟩
  · intro m hm
    obtain ⟨p, hp, -, htype, hreported⟩ := mem_heard_iff.mp hm
    obtain ⟨b', hb', rfl⟩ := List.mem_map.mp hp
    obtain rfl : b' = b := List.inj_on_of_nodup_map hnodup hb' hb htype
    exact text_of_mem_reports hplain hretained htopic hreported

/-- The accessory that an update brings shows what is retained as soon as it is
attached. -/
theorem shows_arrival {d : Device} (hd : d.Attached) {g : Hub}
    (hfaces : g.inventory.faces = h.inventory.faces ++ [d.face]) (hplain : Topic.Plain topic)
    (hretained : g.bus.retained.find? topic = some payload) {b : Binding} (hb : b ∈ d.bindings)
    (htopic : b.feature.getTopic = topic) {a' : Accessory}
    (ha' : (g.attach (h.arrival d)).inventory.get? (h.arrival d).accessory = some a')
    {c' : Characteristic} (hc' : a'.findType? b.typeCode = some c') :
    c'.Shows (Utf8.decodeLossy payload) := by
  obtain ⟨a, ha, heq⟩ := Inventory.get?_of_faces_getElem? (face_arrival hfaces)
  have hblank : a.blank = d.blueprint.accessory.blank := congrArg Prod.fst heq
  have hvaried : a.Varied := by
    rw [← Accessory.varied_blank, hblank, Accessory.varied_blank]
    exact Device.varied_blueprint d
  exact shows_of_attach (typeCode_ne_arrival h d) (Device.nodup_bindings d) ha hvaried hplain
    hretained hb (Device.isAttached_of_mem_bindings hd hb) htopic ha' hc'

/-- An accessory of another device that is there after a change was there before it. -/
theorem find?_of_cutting {h' : Hub} {e : Event} {topics : List String}
    (hc : h.Cutting e topics h') {t : String} (hne : e.device.topic ≠ t) {i : Installed}
    (hfind : h'.installed.find? t = some i) : h.installed.find? t = some i := by
  have hother : ∀ {d : Device} {j : Installed}, d.topic ≠ t →
      (h.installed.insert d.topic j).find? t = some i → h.installed.find? t = some i := by
    intro d j hne hfind
    rw [SortedMap.find?_insert, if_neg hne] at hfind
    exact hfind
  cases hc with
  | install hnew =>
    rw [installed_install] at hfind
    exact hother hne hfind
  | keep hcurrent => exact hfind
  | renew hcurrent =>
    rw [installed_renew] at hfind
    exact hother hne hfind
  | ignore => exact hfind
  | teardown hcurrent => exact (SortedMap.find?_erase_eq_some_iff.mp hfind).2

/-- Taking in a change keeps the agreement.  The accessory that the change brings has
heard what is retained, the others hear it again, and one that is kept hears
nothing. -/
theorem agrees_of_cutting (hs : h.Sound) (hvaried : h.inventory.Varied)
    (hplain : Topic.Plain topic) (hagrees : h.Agrees topic) {h' : Hub} {e : Event}
    {topics : List String} (he : ∀ d, e = .updated d → d.Attached) (hc : h.Cutting e topics h') :
    h'.Agrees topic := by
  intro payload hretained t i hfind b hb htopic a c ha hfound
  rw [retained_of_cutting hc] at hretained
  by_cases hne : e.device.topic ≠ t
  · have hold := find?_of_cutting hc hne hfind
    exact shows_of_stays hs.orderly hplain hagrees hretained hold
      (stays_of_cutting hs hvaried hc hne hold) hb htopic ha hfound
  · obtain rfl := Decidable.not_not.mp hne
    cases hc with
    | @install d hnew =>
      rw [installed_install] at hfind
      obtain rfl : h.arrival d = i :=
        Option.some.inj ((SortedMap.find?_insert_self ..).symm.trans hfind)
      rw [inventory_install] at ha
      exact shows_arrival (he d rfl) (faces_stocked h d) hplain hretained hb htopic ha hfound
    | @keep d current hcurrent =>
      have hfind : h.installed.find? d.topic = some i := hfind
      obtain rfl := Option.some.inj (hcurrent.symm.trans hfind)
      rw [keep, Inventory.get?_modify, if_pos rfl, Option.map_eq_some_iff] at ha
      obtain ⟨a, ha, rfl⟩ := ha
      rw [Accessory.findType?_setReachable (typeCode_ne_of_orderly hs.orderly hfind b hb)] at hfound
      exact hagrees payload hretained d.topic _ hfind b hb htopic a c ha hfound
    | @renew d current hcurrent =>
      rw [installed_renew] at hfind
      obtain rfl : h.arrival d = i :=
        Option.some.inj ((SortedMap.find?_insert_self ..).symm.trans hfind)
      have hfaces : ((h.stocked d).detach current (h.installed.erase d.topic)).inventory.faces =
          h.inventory.faces ++ [d.face] := by
        rw [detach_eq_followAll, faces_followAll (typeCode_ne_of_mem_restored hs.orderly _ d.topic)]
        exact faces_stocked h d
      rw [inventory_renew] at ha
      refine shows_arrival (he d rfl) hfaces hplain ?_ hb htopic ha hfound
      rw [retained_detach]
      exact hretained
    | @ignore d => exact hagrees payload hretained d.topic i hfind b hb htopic a c ha hfound
    | @teardown d current hcurrent =>
      exact absurd (SortedMap.find?_erase_eq_some_iff.mp hfind).1 (fun h => h rfl)

end Change

end Hub
end HomeSync
