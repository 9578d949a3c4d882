import Mathlib.Data.List.Nodup
import HomeSync.Proofs.Adapter.Blueprint

/-
Every slot of a blueprint has the id of its type code.

All type codes that the library uses have an id of their own, so nothing in a
blueprint is numbered by counting.  Numbering an accessory again after a service was
added gives the same ids, and a blueprint is its services with the ids written in.
-/
namespace HomeSync

namespace Identity

def codeId (code : String) : Nat := (typeId? code).getD 0

def HasId (code : String) : Prop := (typeId? code).isSome

end Identity

open Identity

namespace Characteristic

/-- The characteristic with the id of its type code. -/
def coded (c : Characteristic) : Characteristic := { c with id := codeId c.typeCode }

end Characteristic

namespace Service

def coded (s : Service) : Service :=
  { s with id := codeId s.typeCode, characteristics := s.characteristics.map Characteristic.coded }

/-- All ids of the service come from type codes, and none is held back. -/
structure Codable (s : Service) : Prop where
  service : HasId s.typeCode
  characteristics : ∀ c ∈ s.characteristics, HasId c.typeCode ∧ c.held = false

theorem coded_coded (s : Service) : s.coded.coded = s.coded := by
  rw [coded, coded, List.map_map]
  rfl

theorem codable_coded {s : Service} (h : s.Codable) : s.coded.Codable := by
  refine ⟨h.service, fun c hc => ?_⟩
  obtain ⟨c₀, hc₀, rfl⟩ := List.mem_map.mp hc
  exact h.characteristics c₀ hc₀

end Service

namespace Accessory

theorem slotId_of_hasId {code : String} (h : HasId code) (next : Nat) :
    slotId next code = (codeId code, next) := by
  obtain ⟨id, hid⟩ := Option.isSome_iff_exists.mp h
  rw [slotId, codeId, hid]
  rfl

theorem numberCharacteristics_of_codable {l : List Characteristic}
    (h : ∀ c ∈ l, HasId c.typeCode ∧ c.held = false) (next : Nat) :
    numberCharacteristics next l = (l.map Characteristic.coded, next) := by
  induction l with
  | nil => rfl
  | cons c rest ih =>
    obtain ⟨hid, hheld⟩ := h c List.mem_cons_self
    have hnumbered : c.numbered (codeId c.typeCode) = c.coded :=
      if_neg (by rw [hheld]; exact Bool.false_ne_true)
    rw [numberCharacteristics, slotId_of_hasId hid]
    dsimp only
    rw [ih fun c' hc' => h c' (List.mem_cons_of_mem c hc'), hnumbered, List.map_cons]

/-- Nothing is counted where every code has an id. -/
theorem numberServices_of_codable {services : List Service} (h : ∀ s ∈ services, s.Codable)
    (next : Nat) : numberServices next services = services.map Service.coded := by
  induction services with
  | nil => rfl
  | cons s rest ih =>
    obtain ⟨hid, hcharacteristics⟩ := h s List.mem_cons_self
    rw [numberServices, slotId_of_hasId hid]
    dsimp only
    rw [numberCharacteristics_of_codable hcharacteristics]
    dsimp only
    rw [ih fun s' hs' => h s' (List.mem_cons_of_mem s hs'), List.map_cons, Service.coded]

theorem assignIds_of_codable {a : Accessory} (h : ∀ s ∈ a.services, s.Codable) :
    a.assignIds = { a with services := a.services.map Service.coded } := by
  rw [assignIds, numberServices_of_codable h]

theorem codable_fixed (info : Nameplate) :
    ∀ s ∈ [informationService info, bridgingService], s.Codable := by
  have hcodes : ∀ code ∈ [TypeCode.accessoryInformation, TypeCode.bridgingState, TypeCode.identify,
      TypeCode.manufacturer, TypeCode.model, TypeCode.name, TypeCode.serialNumber,
      TypeCode.reachable], HasId code := by
    unfold HasId
    decide +kernel
  intro s hs
  simp only [List.mem_cons, List.not_mem_nil, or_false] at hs
  rcases hs with rfl | rfl
  · refine ⟨hcodes _ (by simp [informationService]), fun c hc => ?_⟩
    simp only [informationService, List.mem_cons, List.not_mem_nil, or_false] at hc
    rcases hc with rfl | rfl | rfl | rfl | rfl <;> exact ⟨hcodes _ (by simp), rfl⟩
  · refine ⟨hcodes _ (by simp [bridgingService]), fun c hc => ?_⟩
    simp only [bridgingService, List.mem_singleton] at hc
    rw [hc]
    exact ⟨hcodes _ (by simp), rfl⟩

theorem services_create (id : Nat) (info : Nameplate) (category : Nat) :
    create id info category =
      { id, category, info
        services := [informationService info, bridgingService].map Service.coded } := by
  rw [create, assignIds_of_codable (codable_fixed info)]

theorem addService_of_codable {a : Accessory} {services : List Service} {s : Service}
    (ha : a.services = services.map Service.coded) (hservices : ∀ s ∈ services, s.Codable)
    (hs : s.Codable) :
    a.addService s = { a with services := (services ++ [s]).map Service.coded } := by
  have hall : ∀ s' ∈ a.services ++ [s], s'.Codable := by
    intro s' hs'
    rcases List.mem_append.mp hs' with hold | hnew
    · rw [ha] at hold
      obtain ⟨s₀, hs₀, rfl⟩ := List.mem_map.mp hold
      exact Service.codable_coded (hservices s₀ hs₀)
    · rw [List.mem_singleton.mp hnew]
      exact hs
  have htwice : Service.coded ∘ Service.coded = Service.coded := funext Service.coded_coded
  rw [addService, assignIds_of_codable hall]
  dsimp only
  rw [List.map_append, List.map_append, ha, List.map_map, htwice]

end Accessory

/-! ## The type codes of features and device types -/

theorem Capability.hasId {c : Capability} (h : c ∈ Capability.table) : HasId c.typeCode := by
  have htable : ∀ code ∈ Capability.table.map (·.typeCode), (typeId? code).isSome := by
    decide +kernel
  exact htable _ (List.mem_map_of_mem h)

theorem ServiceKind.hasId {k : ServiceKind} (h : k ∈ ServiceKind.table) : HasId k.typeCode := by
  have htable : ∀ code ∈ ServiceKind.table.map (·.typeCode), (typeId? code).isSome := by
    decide +kernel
  exact htable _ (List.mem_map_of_mem h)

namespace Device

/-- The main service that a device has on the bridge, if it has one. -/
def mainServices (d : Device) : List Service :=
  if d.bindings.isEmpty then []
  else
    (d.mainService?.map fun kind =>
      { typeCode := kind.typeCode, characteristics := d.bindings.map (·.characteristic) }).toList

theorem codable_mainServices (d : Device) : ∀ s ∈ d.mainServices, s.Codable := by
  intro s hs
  rw [mainServices] at hs
  split at hs
  · simp at hs
  · obtain ⟨kind, hkind, rfl⟩ := Option.map_eq_some_iff.mp (Option.mem_toList.mp hs)
    rw [mainService?, ServiceKind.find?] at hkind
    refine ⟨ServiceKind.hasId (List.mem_of_find?_eq_some hkind), fun c hc => ?_⟩
    obtain ⟨b, hb, rfl⟩ := List.mem_map.mp hc
    exact ⟨Capability.hasId (mem_bindings hb).2, rfl⟩

theorem bindings_of_mainService?_none {d : Device} (h : d.mainService? = none) :
    d.bindings = [] := by
  rw [bindings, h]
  rfl

/-- The accessory of a blueprint is made of the fixed services and the main one. -/
theorem accessory_blueprint (d : Device) :
    d.blueprint.accessory =
      { id := Identity.topicId d.topic
        category := Category.ofDeviceType d.deviceType
        info := d.nameplate
        services := ([Accessory.informationService d.nameplate, Accessory.bridgingService]
          ++ d.mainServices).map Service.coded } := by
  have hfixed := Accessory.services_create (Identity.topicId d.topic) d.nameplate
    (Category.ofDeviceType d.deviceType)
  rw [blueprint]
  dsimp only
  cases hkind : d.mainService? with
  | none =>
    rw [mainServices, bindings_of_mainService?_none hkind, hfixed]
    rfl
  | some kind =>
    dsimp only
    have hmain := codable_mainServices d
    rw [mainServices, hkind] at hmain ⊢
    split
    · exact hfixed
    · rename_i hne
      rw [if_neg hne] at hmain
      rw [Accessory.addService_of_codable (congrArg Accessory.services hfixed)
        (Accessory.codable_fixed d.nameplate) (hmain _ (by simp)), hfixed]
      rfl

/-! ## The characteristics of a blueprint -/

def fixedCharacteristics (d : Device) : List Characteristic :=
  (Accessory.informationService d.nameplate).characteristics
    ++ Accessory.bridgingService.characteristics

/-- The main service shows the bindings, and where there is none there are no bindings. -/
theorem flatMap_mainServices (d : Device) :
    (d.mainServices.map Service.coded).flatMap (·.characteristics) =
      d.bindings.map (·.characteristic.coded) := by
  rw [mainServices]
  split
  · rename_i hempty
    rw [List.isEmpty_iff.mp hempty]
    rfl
  · rename_i hne
    cases hkind : d.mainService? with
    | none => exact absurd (List.isEmpty_iff.mpr (bindings_of_mainService?_none hkind)) hne
    | some kind =>
      rw [Option.map_some, Option.toList_some, List.map_singleton, List.flatMap_singleton,
        Service.coded, List.map_map]
      rfl

theorem characteristics_blueprint (d : Device) :
    d.blueprint.accessory.characteristics =
      d.fixedCharacteristics.map Characteristic.coded ++
        d.bindings.map (·.characteristic.coded) := by
  rw [accessory_blueprint, Accessory.characteristics]
  dsimp only
  rw [List.map_append, List.flatMap_append, flatMap_mainServices]
  rfl

end Device

namespace Identity

/-- The type codes of all characteristics that a blueprint can have. -/
def codes : List String :=
  [TypeCode.name, TypeCode.manufacturer, TypeCode.model, TypeCode.serialNumber, TypeCode.identify,
    TypeCode.reachable] ++ Capability.table.map (·.typeCode)

end Identity

namespace Device

/-- The characteristic of a binding is the only one of its type. -/
theorem findType?_blueprint {d : Device} {b : Binding} (hb : b ∈ d.bindings) :
    d.blueprint.accessory.findType? b.typeCode = some b.characteristic.coded := by
  have hfixed : (d.fixedCharacteristics.map Characteristic.coded).find?
      (·.typeCode == b.typeCode) = none := by
    have hcodes : ∀ c ∈ Capability.table, c.typeCode ∉ codes.take 6 := by decide +kernel
    rw [List.find?_eq_none]
    intro c' hc'
    obtain ⟨c, hc, rfl⟩ := List.mem_map.mp hc'
    rw [beq_iff_eq]
    intro heq
    have hcode : c.typeCode ∈ codes.take 6 :=
      List.mem_map_of_mem (f := Characteristic.typeCode) hc
    have heq : c.typeCode = b.typeCode := heq
    rw [heq] at hcode
    exact hcodes b.capability (mem_bindings hb).2 hcode
  have hfirst : ∀ l : List Binding, (l.map Binding.typeCode).Nodup → b ∈ l →
      (l.map (·.characteristic.coded)).find? (·.typeCode == b.typeCode) =
        some b.characteristic.coded := by
    intro l
    induction l with
    | nil => exact fun _ h => absurd h (by simp)
    | cons b' rest ih =>
      intro hnodup hmem
      obtain ⟨hnew, hrest⟩ := List.nodup_cons.mp hnodup
      rw [List.map_cons, List.find?_cons]
      rcases List.mem_cons.mp hmem with rfl | hmem
      · have hself : (b.characteristic.coded.typeCode == b.typeCode) = true := beq_self_eq_true _
        rw [hself]
      · have hne : (b'.characteristic.coded.typeCode == b.typeCode) = false := by
          rw [beq_eq_false_iff_ne]
          intro heq
          exact hnew (List.mem_map.mpr ⟨b, hmem, heq.symm⟩)
        rw [hne]
        exact ih hrest hmem
  rw [Accessory.findType?, characteristics_blueprint, List.find?_append, hfixed, Option.none_or]
  exact hfirst d.bindings d.nodup_bindings hb

end Device

namespace Accessory

end Accessory
end HomeSync
