import HomeSync.Adapter.Blueprint
import HomeSync.Proofs.Accessory.Face
import HomeSync.Proofs.Device.Made

/-
What every blueprint has.

The bindings of a device show attached features of known names, each type of
characteristic once.  The characteristics of its accessory are those of the two
fixed services and one for each binding, and numbering them changes nothing but
their ids.
-/
namespace HomeSync

/-! ## Bindings -/

namespace Binding

theorem mem_ofFeatures {taken : List String} {l : List (String × Feature)} {b : Binding}
    (h : b ∈ ofFeatures taken l) :
    (∃ name, (name, b.feature) ∈ l) ∧ b.capability ∈ Capability.table ∧ b.typeCode ∉ taken := by
  induction l generalizing taken with
  | nil => simp [ofFeatures] at h
  | cons e rest ih =>
    obtain ⟨name, feature⟩ := e
    rw [ofFeatures] at h
    cases hfind : Capability.find? name with
    | none =>
      rw [hfind] at h
      obtain ⟨⟨name', hmem⟩, htable, htaken⟩ := ih h
      exact ⟨⟨name', List.mem_cons_of_mem _ hmem⟩, htable, htaken⟩
    | some capability =>
      rw [hfind] at h
      dsimp only at h
      split at h
      · obtain ⟨⟨name', hmem⟩, htable, htaken⟩ := ih h
        exact ⟨⟨name', List.mem_cons_of_mem _ hmem⟩, htable, htaken⟩
      · rename_i hfree
        rcases List.mem_cons.mp h with rfl | h
        · refine ⟨⟨name, List.mem_cons_self⟩, List.mem_of_find?_eq_some hfind, ?_⟩
          simpa [typeCode] using hfree
        · obtain ⟨⟨name', hmem⟩, htable, htaken⟩ := ih h
          exact ⟨⟨name', List.mem_cons_of_mem _ hmem⟩, htable,
            fun hmem => htaken (List.mem_cons_of_mem _ hmem)⟩

theorem nodup_ofFeatures (taken : List String) (l : List (String × Feature)) :
    ((ofFeatures taken l).map typeCode).Nodup := by
  induction l generalizing taken with
  | nil => exact List.nodup_nil
  | cons e rest ih =>
    obtain ⟨name, feature⟩ := e
    rw [ofFeatures]
    split
    · exact ih taken
    · split
      · exact ih taken
      · rename_i capability _ _
        rw [List.map_cons, List.nodup_cons]
        refine ⟨fun hmem => ?_, ih _⟩
        obtain ⟨b, hb, hcode⟩ := List.mem_map.mp hmem
        apply (mem_ofFeatures hb).2.2
        rw [hcode]
        exact List.mem_cons_self

end Binding

namespace Device

theorem bindings_blueprint (d : Device) : d.blueprint.bindings = d.bindings := by
  rw [blueprint]

theorem mem_bindings {d : Device} {b : Binding} (h : b ∈ d.bindings) :
    (∃ name, d.features.find? name = some b.feature) ∧ b.capability ∈ Capability.table := by
  rw [bindings] at h
  split at h
  · obtain ⟨⟨name, hmem⟩, htable, -⟩ := Binding.mem_ofFeatures h
    exact ⟨⟨name, SortedMap.find?_eq_some_iff.mpr hmem⟩, htable⟩
  · simp at h

theorem nodup_bindings (d : Device) : (d.bindings.map Binding.typeCode).Nodup := by
  rw [bindings]
  split
  · exact Binding.nodup_ofFeatures [] _
  · exact List.nodup_nil

theorem isAttached_of_mem_bindings {d : Device} (h : d.Attached) {b : Binding}
    (hb : b ∈ d.bindings) : b.feature.isAttached = true := by
  obtain ⟨⟨name, hfind⟩, -⟩ := mem_bindings hb
  exact h name b.feature hfind

/-- No feature is shown as the reachable flag. -/
theorem typeCode_ne_of_mem_bindings {d : Device} {b : Binding} (hb : b ∈ d.bindings) :
    b.typeCode ≠ TypeCode.reachable := by
  have htable : ∀ c ∈ Capability.table, c.typeCode ≠ TypeCode.reachable := by decide
  exact htable b.capability (mem_bindings hb).2

end Device

/-! ## Bounds -/

namespace Binary64

theorem ofFraction_ne_nan (negative : Bool) (num den : Nat) :
    ofFraction negative num den ≠ .nan := by
  rw [ofFraction]
  split <;> simp

end Binary64

theorem Capability.bounds_ne_nan {c : Capability} (h : c ∈ Capability.table) :
    c.min ≠ some .nan ∧ c.max ≠ some .nan ∧ c.step ≠ some .nan := by
  have htable : ∀ c ∈ Capability.table,
      c.min ≠ some .nan ∧ c.max ≠ some .nan ∧ c.step ≠ some .nan := by
    simp [table, flag, ranged, whole, part, Binary64.ofFraction_ne_nan]
  exact htable c h

namespace Binding

theorem bound_ne_nan (numeric : Bool) (n : Option Int64) {fallback : Option Binary64}
    (h : fallback ≠ some .nan) : (if numeric then bound n fallback else fallback) ≠ some .nan := by
  split
  · unfold bound
    split
    · split
      · exact h
      · intro heq
        exact Binary64.ofFraction_ne_nan _ _ _ (Option.some.inj heq)
    · exact h
  · exact h

theorem bounded_characteristic {b : Binding} (h : b.capability ∈ Capability.table) :
    b.characteristic.Bounded := by
  obtain ⟨hmin, hmax, hstep⟩ := Capability.bounds_ne_nan h
  exact ⟨bound_ne_nan _ _ hmin, bound_ne_nan _ _ hmax, bound_ne_nan _ _ hstep⟩

end Binding

/-! ## The accessory of a blueprint -/

namespace Characteristic

/-- What of a characteristic numbering and values leave alone, as far as the flag
and the bounds are concerned. -/
def outline (c : Characteristic) :
    String × Bool × Option Binary64 × Option Binary64 × Option Binary64 :=
  (c.typeCode, c.writable, c.min, c.max, c.step)

theorem outline_numbered (c : Characteristic) (id : Nat) : (c.numbered id).outline = c.outline := by
  rw [numbered]
  split <;> rfl

end Characteristic

namespace Accessory

theorem map_outline_numberCharacteristics (next : Nat) (l : List Characteristic) :
    (numberCharacteristics next l).1.map Characteristic.outline =
      l.map Characteristic.outline := by
  induction l generalizing next with
  | nil => rfl
  | cons c rest ih =>
    rw [numberCharacteristics, List.map_cons, List.map_cons, Characteristic.outline_numbered, ih]

theorem map_outline_assignIds (a : Accessory) :
    a.assignIds.characteristics.map Characteristic.outline =
      a.characteristics.map Characteristic.outline := by
  have hservices : ∀ (services : List Service) (next : Nat),
      ((numberServices next services).flatMap (·.characteristics)).map Characteristic.outline =
        (services.flatMap (·.characteristics)).map Characteristic.outline := by
    intro services
    induction services with
    | nil => exact fun _ => rfl
    | cons s rest ih =>
      intro next
      rw [numberServices, List.flatMap_cons, List.flatMap_cons, List.map_append, List.map_append, ih,
        map_outline_numberCharacteristics]
  exact hservices a.services 1

theorem map_outline_addService (a : Accessory) (s : Service) :
    (a.addService s).characteristics.map Characteristic.outline =
      a.characteristics.map Characteristic.outline ++
        s.characteristics.map Characteristic.outline := by
  rw [addService, map_outline_assignIds, ← List.map_append]
  show ((a.services ++ [s]).flatMap (·.characteristics)).map _ = _
  rw [List.flatMap_append, List.flatMap_singleton]
  rfl

theorem map_outline_create (id : Nat) (info : Nameplate) (category : Nat) :
    (create id info category).characteristics.map Characteristic.outline =
      [(TypeCode.name, false, none, none, none), (TypeCode.manufacturer, false, none, none, none),
        (TypeCode.model, false, none, none, none), (TypeCode.serialNumber, false, none, none, none),
        (TypeCode.identify, true, none, none, none),
        (TypeCode.reachable, false, none, none, none)] := by
  rw [create, map_outline_assignIds]
  rfl

theorem all_zip_self {α : Type} (p : α → α → Bool) (l : List α) :
    (l.zip l).all (fun x => p x.1 x.2) = l.all fun x => p x x := by
  induction l with
  | nil => rfl
  | cons x rest ih => rw [List.zip_cons_cons, List.all_cons, List.all_cons, ih]

theorem sameStructure_self {a : Accessory} (h : ∀ c ∈ a.characteristics, c.Bounded) :
    a.sameStructure a = true := by
  have hservice : ∀ s ∈ a.services, s.sameStructure s = true := by
    intro s hs
    have hall : (s.characteristics.zip s.characteristics).all
        (fun p => p.1.sameStructure p.2) = true := by
      rw [all_zip_self, List.all_eq_true]
      intro c hc
      have hmem : c ∈ a.characteristics := List.mem_flatMap.mpr ⟨s, hs, hc⟩
      obtain ⟨hmin, hmax, hstep⟩ := h c hmem
      exact Characteristic.sameStructure_self hmin hmax hstep
    rw [Service.sameStructure, hall]
    simp
  have hall : (a.services.zip a.services).all (fun p => p.1.sameStructure p.2) = true := by
    rw [all_zip_self, List.all_eq_true]
    exact hservice
  rw [sameStructure, hall]
  simp

end Accessory

namespace Device

/-- The fixed characteristics come first and are followed by one for each
binding. -/
theorem map_outline_blueprint (d : Device) :
    d.blueprint.accessory.characteristics.map Characteristic.outline =
      (Accessory.create (Identity.topicId d.topic) d.nameplate
        (Category.ofDeviceType d.deviceType)).characteristics.map Characteristic.outline ++
      d.bindings.map (·.characteristic.outline) := by
  rw [blueprint]
  dsimp only
  cases hkind : d.mainService? with
  | none =>
    have hnone : d.bindings = [] := by rw [bindings, hkind]; rfl
    rw [hnone]
    simp
  | some kind =>
    dsimp only
    split
    · rename_i hempty
      rw [List.isEmpty_iff.mp hempty]
      simp
    · rw [Accessory.map_outline_addService, List.map_map]
      rfl

theorem outline_mem_blueprint {d : Device} {c : Characteristic}
    (h : c ∈ d.blueprint.accessory.characteristics) :
    (∃ code writable, c.outline = (code, writable, none, none, none) ∧
      (code = TypeCode.reachable → writable = false)) ∨
    ∃ b ∈ d.bindings, c.outline = b.characteristic.outline := by
  have hmem := List.mem_map_of_mem (f := Characteristic.outline) h
  rw [map_outline_blueprint, Accessory.map_outline_create, List.mem_append] at hmem
  rcases hmem with hfixed | hbinding
  · left
    simp only [List.mem_cons, List.not_mem_nil, or_false] at hfixed
    rcases hfixed with h | h | h | h | h | h <;> exact ⟨_, _, h, by decide⟩
  · right
    obtain ⟨b, hb, heq⟩ := List.mem_map.mp hbinding
    exact ⟨b, hb, heq.symm⟩

theorem bounded_blueprint {d : Device} {c : Characteristic}
    (h : c ∈ d.blueprint.accessory.characteristics) : c.Bounded := by
  rcases outline_mem_blueprint h with ⟨code, writable, houtline, -⟩ | ⟨b, hb, houtline⟩
  · simp only [Characteristic.outline, Prod.mk.injEq] at houtline
    obtain ⟨-, -, hmin, hmax, hstep⟩ := houtline
    rw [Characteristic.Bounded, hmin, hmax, hstep]
    simp
  · have hbounded := Binding.bounded_characteristic (mem_bindings hb).2
    simp only [Characteristic.outline, Prod.mk.injEq] at houtline
    obtain ⟨-, -, hmin, hmax, hstep⟩ := houtline
    rw [Characteristic.Bounded, hmin, hmax, hstep]
    exact hbounded

theorem sameStructure_blueprint (d : Device) :
    d.blueprint.accessory.sameStructure d.blueprint.accessory = true :=
  Accessory.sameStructure_self fun _ hc => bounded_blueprint hc

theorem flagged_blueprint (d : Device) : d.blueprint.accessory.Flagged := by
  constructor
  · have hmem : (TypeCode.reachable, false, none, none, none) ∈
        d.blueprint.accessory.characteristics.map Characteristic.outline := by
      rw [map_outline_blueprint, Accessory.map_outline_create]
      simp
    obtain ⟨c, hc, houtline⟩ := List.mem_map.mp hmem
    simp only [Characteristic.outline, Prod.mk.injEq] at houtline
    rw [Accessory.findType?, List.find?_isSome]
    exact ⟨c, hc, by simpa using houtline.1⟩
  · intro c hc hcode
    rcases outline_mem_blueprint hc with ⟨code, writable, houtline, hfixed⟩ | ⟨b, hb, houtline⟩
    · simp only [Characteristic.outline, Prod.mk.injEq] at houtline
      rw [houtline.2.1]
      exact hfixed (houtline.1.symm.trans hcode)
    · simp only [Characteristic.outline, Prod.mk.injEq] at houtline
      exact absurd (houtline.1.symm.trans hcode) (typeCode_ne_of_mem_bindings hb)

end Device
end HomeSync
