import HomeSync.Proofs.Accessory.Reports
import HomeSync.Proofs.Adapter.Foreign
import HomeSync.Proofs.Adapter.Mirror

/-
What a change of one device does to the accessories of the others.

A change builds, cuts and follows, and none of this is meant for the other
accessories.  But those on a topic that was cut are subscribed again, and a bus
hands out what it has retained to whoever subscribes.  So an accessory next to the
one that goes takes in once more what is retained on the topics they share, and
that is all that happens to it.
-/
namespace HomeSync

namespace Bus

/-- What is retained for the reports of a feature. -/
def reports (bus : Bus) (f : Feature) : List Message :=
  match f.reportFilter with
  | .ok filter => bus.retainedFor filter
  | .error _ => []

theorem reports_of_attached (bus : Bus) {f : Feature} (hf : f.isAttached = true) :
    bus.reports f = bus.retainedFor f.getTopic := by
  rw [reports, Feature.reportFilter, Feature.whenAttached, if_pos hf]

theorem reports_of_detached (bus : Bus) {f : Feature} (hf : ¬ f.isAttached = true) :
    bus.reports f = [] := by
  rw [reports, Feature.reportFilter, Feature.whenAttached, if_neg hf]

theorem reports_congr {bus bus' : Bus} (h : bus'.retained = bus.retained) (f : Feature) :
    bus'.reports f = bus.reports f := by
  have hretained : bus'.retainedFor = bus.retainedFor := by
    funext filter
    rw [retainedFor, retainedFor, h]
  rw [reports, reports, hretained]

end Bus

namespace Device

/-- A blueprint has each type of characteristic once. -/
theorem varied_blueprint (d : Device) : d.blueprint.accessory.Varied := by
  have hcodes : d.blueprint.accessory.characteristics.map (·.typeCode) =
      [TypeCode.name, TypeCode.manufacturer, TypeCode.model, TypeCode.serialNumber,
        TypeCode.identify, TypeCode.reachable] ++ d.bindings.map Binding.typeCode := by
    have houtline := congrArg (List.map Prod.fst) (map_outline_blueprint d)
    rw [List.map_append, Accessory.map_outline_create, List.map_map, List.map_map] at houtline
    exact houtline
  have htable : ∀ c ∈ Capability.table, c.typeCode ∉
      [TypeCode.name, TypeCode.manufacturer, TypeCode.model, TypeCode.serialNumber,
        TypeCode.identify, TypeCode.reachable] := by decide
  rw [Accessory.Varied, hcodes, List.nodup_append']
  refine ⟨by decide, nodup_bindings d, ?_⟩
  intro code hfixed hbinding
  obtain ⟨b, hb, rfl⟩ := List.mem_map.mp hbinding
  exact htable b.capability (mem_bindings hb).2 hfixed

end Device

namespace Hub

/-! ## What is heard while features are followed -/

section Follow

variable (h : Hub) (n : Nat) (b : Binding)

theorem retained_follow : (h.follow n b).bus.retained = h.bus.retained :=
  follow_cases h n b (P := fun g => g.bus.retained = h.bus.retained) rfl rfl

theorem inventory_follow :
    (h.follow n b).inventory = (h.bus.reports b.feature).foldl
      (fun inv m => inv.report n b.typeCode m.text) h.inventory := by
  by_cases hb : b.feature.isAttached = true
  · rw [follow_of_attached h n hb, Bus.reports_of_attached h.bus hb]
  · rw [follow_of_detached h n hb, Bus.reports_of_detached h.bus hb]
    rfl

end Follow

/-- What a characteristic of an accessory hears while a list of features is
followed. -/
def heard (h : Hub) (l : List (Nat × Binding)) (n : Nat) (code : String) : List Message :=
  (l.filter fun p => p.1 == n && p.2.typeCode == code).flatMap fun p => h.bus.reports p.2.feature

theorem heard_congr {h h' : Hub} (hretained : h'.bus.retained = h.bus.retained)
    (l : List (Nat × Binding)) : h'.heard l = h.heard l := by
  funext n code
  exact List.flatMap_congr fun p _ => Bus.reports_congr hretained p.2.feature

theorem heard_cons (h : Hub) (p : Nat × Binding) (l : List (Nat × Binding)) (n : Nat)
    (code : String) :
    h.heard (p :: l) n code =
      (if p.1 = n ∧ code = p.2.typeCode then h.bus.reports p.2.feature else []) ++
        h.heard l n code := by
  rw [heard, heard, List.filter_cons]
  by_cases hp : p.1 = n ∧ code = p.2.typeCode
  · have hp' : (p.1 == n && p.2.typeCode == code) = true := by
      rw [hp.1, hp.2, beq_self_eq_true, beq_self_eq_true, Bool.and_self]
    rw [if_pos hp, if_pos hp', List.flatMap_cons]
  · have hp' : ¬ (p.1 == n && p.2.typeCode == code) = true := by
      rw [Bool.and_eq_true, beq_iff_eq, beq_iff_eq]
      exact fun hboth => hp ⟨hboth.1, hboth.2.symm⟩
    rw [if_neg hp, if_neg hp', List.nil_append]

/-- Every accessory hears what is retained for its own features. -/
theorem hears_followAll {l : List (Nat × Binding)}
    (hcode : ∀ p ∈ l, p.2.typeCode ≠ TypeCode.reachable) {n : Nat} (h : Hub) {a : Accessory}
    (ha : h.inventory.get? n = some a) (hvaried : a.Varied) :
    ∃ a', (h.followAll l).inventory.get? n = some a' ∧ a.Hears (h.heard l n) a' := by
  induction l generalizing h a with
  | nil => exact ⟨a, ha, a.hears_refl⟩
  | cons p rest ih =>
    have hstep : ∃ a', (h.follow p.1 p.2).inventory.get? n = some a' ∧
        a.Hears (fun code => if p.1 = n ∧ code = p.2.typeCode then h.bus.reports p.2.feature else [])
          a' := by
      rw [inventory_follow, Inventory.get?_foldl_report, ha]
      by_cases hn : p.1 = n
      · simp only [hn, if_true, true_and]
        exact ⟨_, rfl, Accessory.hears_hear (hcode p List.mem_cons_self) _ hvaried⟩
      · simp only [hn, if_false, false_and]
        exact ⟨a, rfl, a.hears_refl⟩
    obtain ⟨a', ha', hears⟩ := hstep
    obtain ⟨a'', ha'', hears'⟩ := ih (fun p' hp' => hcode p' (List.mem_cons_of_mem p hp'))
      (h.follow p.1 p.2) ha' (Accessory.varied_of_face hvaried hears.face)
    refine ⟨a'', ha'', ?_⟩
    have hboth := Accessory.hears_trans hears hears'
    rw [heard_congr (retained_follow h p.1 p.2)] at hboth
    have hheard : h.heard (p :: rest) n = fun code =>
        (if p.1 = n ∧ code = p.2.typeCode then h.bus.reports p.2.feature else []) ++
          h.heard rest n code := funext fun code => h.heard_cons p rest n code
    rw [hheard]
    exact hboth

/-! ## What an accessory hears when another one goes -/

/-- What a characteristic of an installed accessory hears again when topics are
cut. -/
def redelivered (h : Hub) (topics : List String) (i : Installed) (code : String) : List Message :=
  (i.bindings.filter fun b => b.typeCode == code && topics.contains b.feature.getTopic).flatMap
    fun b => h.bus.reports b.feature

/-- Nothing is heard again where nothing is retained on the topics that are cut. -/
theorem redelivered_of_quiet {h : Hub} {topics : List String} {i : Installed}
    (hquiet : ∀ b ∈ i.bindings, b.feature.getTopic ∈ topics → h.bus.reports b.feature = []) :
    h.redelivered topics i = fun _ => [] := by
  funext code
  refine List.flatMap_eq_nil_iff.mpr fun b hb => ?_
  obtain ⟨hmem, htest⟩ := List.mem_filter.mp hb
  exact hquiet b hmem (List.contains_iff_mem.mp (Bool.and_eq_true_iff.mp htest).2)

theorem redelivered_nil (h : Hub) (i : Installed) : h.redelivered [] i = fun _ => [] :=
  redelivered_of_quiet fun _ _ hmem => absurd hmem (by simp)

theorem flatMap_of_distinct {β : Type} {l : List Installed}
    (hl : l.Pairwise fun i j => i.accessory ≠ j.accessory) {i : Installed} (hi : i ∈ l)
    {f : Installed → List β} (hf : ∀ j, j.accessory ≠ i.accessory → f j = []) :
    l.flatMap f = f i := by
  obtain ⟨before, after, rfl⟩ := List.append_of_mem hi
  obtain ⟨-, hafter, hbefore⟩ := List.pairwise_append.mp hl
  have hnone : before.flatMap f = [] := List.flatMap_eq_nil_iff.mpr fun j hj =>
    hf j (hbefore j hj i List.mem_cons_self)
  have hnone' : after.flatMap f = [] := List.flatMap_eq_nil_iff.mpr fun j hj =>
    hf j (List.rel_of_pairwise_cons hafter hj).symm
  rw [List.flatMap_append, List.flatMap_cons, hnone, hnone', List.nil_append, List.append_nil]

/-- Of all that is restored an accessory hears what is retained on its own topics. -/
theorem heard_restored (h : Hub) (leaving : Installed) {remaining : List Installed}
    (hdistinct : remaining.Pairwise fun i j => i.accessory ≠ j.accessory) {i : Installed}
    (hi : i ∈ remaining) :
    h.heard (restored leaving remaining) i.accessory = h.redelivered (reportTopics leaving) i := by
  funext code
  have hother : ∀ j : Installed, j.accessory ≠ i.accessory →
      ((j.bindings.filter fun b => (reportTopics leaving).contains b.feature.getTopic).map
        (j.accessory, ·)).filter
          (fun p => p.1 == i.accessory && p.2.typeCode == code) = [] := by
    intro j hj
    rw [List.filter_eq_nil_iff]
    intro p hp
    obtain ⟨b, -, rfl⟩ := List.mem_map.mp hp
    simp [hj]
  rw [heard, restored, List.filter_flatMap, flatMap_of_distinct hdistinct hi hother, redelivered,
    List.filter_map, List.flatMap_map, List.filter_filter]
  simp only [Function.comp_def, beq_self_eq_true, Bool.true_and]

/-- An accessory that is just being attached is the only one that hears anything. -/
theorem heard_attached (h : Hub) {i : Installed} {n : Nat} (hn : i.accessory ≠ n) :
    h.heard (i.bindings.map (i.accessory, ·)) n = fun _ => [] := by
  funext code
  have hnone : (i.bindings.map (i.accessory, ·)).filter
      (fun p => p.1 == n && p.2.typeCode == code) = [] := by
    rw [List.filter_eq_nil_iff]
    intro p hp
    obtain ⟨b, -, rfl⟩ := List.mem_map.mp hp
    simp [hn]
  rw [heard, hnone]
  rfl

/-! ## Taking in a change -/

theorem varied_of_takes {h h' : Hub} {e : Event} (hs : h.Sound) (hvaried : h.inventory.Varied)
    (ht : h.Takes e h') : h'.inventory.Varied := by
  have hblueprint : ∀ d : Device, d.blueprint.accessory.blank.Varied := fun d =>
    Accessory.varied_blank.mpr (Device.varied_blueprint d)
  cases ht with
  | install hnew => exact blanks_of_append hvaried (hblueprint _) (faces_install ..)
  | keep hfind hfits => exact blanks_keep hvaried hs.flagged _ _
  | renew hfind => exact blanks_of_append hvaried (hblueprint _) (faces_renew hs.orderly _ _)
  | ignore hnone => exact hvaried
  | teardown hfind => exact Inventory.varied_of_faces hvaried (faces_teardown hs.orderly _ _)

/-- An installed accessory stays in place from one state to another one, and on the
way it takes in messages. -/
structure Stays (h : Hub) (topic : String) (i : Installed)
    (messages : String → List Message) (h' : Hub) : Prop where
  installed : h'.installed.find? topic = some i
  hears : ∃ a a', h.inventory.get? i.accessory = some a ∧
    h'.inventory.get? i.accessory = some a' ∧ a.Hears messages a'

section Change

variable {h : Hub} {topic : String} {i : Installed}

theorem get?_of_installed (hs : h.Sound) (hfind : h.installed.find? topic = some i) :
    ∃ a, h.inventory.get? i.accessory = some a := by
  have hlt : i.accessory < h.inventory.accessories.length :=
    hs.orderly.numbered topic i hfind
  exact ⟨_, List.getElem?_eq_getElem hlt⟩

theorem get?_stocked (ho : h.Orderly) (hfind : h.installed.find? topic = some i) (d : Device) :
    (h.stocked d).inventory.get? i.accessory = h.inventory.get? i.accessory :=
  List.getElem?_append_left (ho.numbered topic i hfind)

theorem hears_detach (ho : h.Orderly) (hvaried : h.inventory.Varied) {g : Hub}
    (hretained : g.bus.retained = h.bus.retained) {t : String} (hne : t ≠ topic)
    (hfind : h.installed.find? topic = some i) (leaving : Installed) {a : Accessory}
    (ha : h.inventory.get? i.accessory = some a)
    (hg : g.inventory.get? i.accessory = h.inventory.get? i.accessory) :
    ∃ a', (g.detach leaving (h.installed.erase t)).inventory.get? i.accessory = some a' ∧
      a.Hears (h.redelivered (reportTopics leaving) i) a' := by
  have herased : ({ h with installed := h.installed.erase t } : Hub).Orderly :=
    orderly_of_erase ho rfl rfl
  have hdistinct : (h.installed.erase t).values.Pairwise fun i j => i.accessory ≠ j.accessory :=
    accessories_pairwise herased
  have hmem : i ∈ (h.installed.erase t).values :=
    SortedMap.mem_values_iff.mpr ⟨topic, SortedMap.find?_erase_eq_some_iff.mpr ⟨hne, hfind⟩⟩
  have hcut : ({ g with bus := g.bus.unsubscribe (reportTopics leaving) } : Hub).bus.retained =
      h.bus.retained := hretained
  rw [detach_eq_followAll, ← heard_restored h leaving hdistinct hmem, ← heard_congr hcut]
  exact hears_followAll (typeCode_ne_of_mem_restored ho leaving t) _ (hg.trans ha)
    (Inventory.varied_of_get? hvaried ha)

/-- Attaching what arrives is not heard by an accessory that is there already. -/
theorem hears_attach_arrival (ho : h.Orderly) (hfind : h.installed.find? topic = some i)
    (d : Device) (g : Hub) {a : Accessory} (ha : g.inventory.get? i.accessory = some a)
    (hvaried : a.Varied) :
    ∃ a', (g.attach (h.arrival d)).inventory.get? i.accessory = some a' ∧
      a.Hears (fun _ => []) a' := by
  have hn : (h.arrival d).accessory ≠ i.accessory :=
    Nat.ne_of_gt (ho.numbered topic i hfind)
  have hcode : ∀ p ∈ (h.arrival d).bindings.map ((h.arrival d).accessory, ·),
      p.2.typeCode ≠ TypeCode.reachable := by
    intro p hp
    obtain ⟨b, hb, rfl⟩ := List.mem_map.mp hp
    exact typeCode_ne_arrival h d b hb
  rw [attach_eq_followAll, ← heard_attached g hn]
  exact hears_followAll hcode g ha hvaried

/-- A change leaves the accessories of all other devices in place.  They take in what
is retained on their topics that the change cuts. -/
theorem stays_of_cutting (hs : h.Sound) (hvaried : h.inventory.Varied) {h' : Hub} {e : Event}
    {topics : List String} (hc : h.Cutting e topics h') (hne : e.device.topic ≠ topic)
    (hfind : h.installed.find? topic = some i) : h.Stays topic i (h.redelivered topics i) h' := by
  obtain ⟨a, ha⟩ := get?_of_installed hs hfind
  have hvaried' : a.Varied := Inventory.varied_of_get? hvaried ha
  cases hc with
  | @install d hnew =>
    refine ⟨?_, ?_⟩
    · rw [installed_install]
      exact SortedMap.find?_insert_eq_some_iff.mpr (Or.inr ⟨hne, hfind⟩)
    · obtain ⟨a', ha', hears⟩ := hears_attach_arrival hs.orderly hfind d (h.stocked d)
        ((get?_stocked hs.orderly hfind d).trans ha) hvaried'
      rw [inventory_install, redelivered_nil]
      exact ⟨a, a', ha, ha', hears⟩
  | @keep d current hcurrent =>
    refine ⟨hfind, a, a, ha, ?_, ?_⟩
    · have hother : current.accessory ≠ i.accessory := fun heq =>
        hne (hs.orderly.distinct d.topic topic current i hcurrent hfind heq)
      exact (List.getElem?_modify_ne _ _ hother).trans ha
    · rw [redelivered_nil]
      exact a.hears_refl
  | @renew d current hcurrent =>
    refine ⟨?_, ?_⟩
    · rw [installed_renew]
      exact SortedMap.find?_insert_eq_some_iff.mpr (Or.inr ⟨hne, hfind⟩)
    · obtain ⟨a', ha', hears⟩ := hears_detach hs.orderly hvaried (g := h.stocked d) rfl hne hfind
        current ha (get?_stocked hs.orderly hfind d)
      obtain ⟨a'', ha'', hears'⟩ := hears_attach_arrival hs.orderly hfind d _ ha'
        (Accessory.varied_of_face hvaried' hears.face)
      have hboth := Accessory.hears_trans hears hears'
      simp only [List.append_nil] at hboth
      rw [inventory_renew]
      exact ⟨a, a'', ha, ha'', hboth⟩
  | ignore =>
    refine ⟨hfind, a, a, ha, ha, ?_⟩
    rw [redelivered_nil]
    exact a.hears_refl
  | @teardown d current hcurrent =>
    refine ⟨SortedMap.find?_erase_eq_some_iff.mpr ⟨hne, hfind⟩, ?_⟩
    obtain ⟨a', ha', hears⟩ := hears_detach hs.orderly hvaried (g := h) rfl hne hfind current ha
      rfl
    exact ⟨a, a', ha, ha', hears⟩

end Change

end Hub
end HomeSync
