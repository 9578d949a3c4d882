import HomeSync.Proofs.Accessory.Shape
import HomeSync.Proofs.Adapter.Coding
import HomeSync.Proofs.Adapter.Mirror

/-
What a controller sees of a device.

The view of a device is what an accessory on the bridge shows beside its values, and
where the requests for its features go.  An installed accessory fits a later device
exactly if the device has the view of the one that the accessory presents.
-/
namespace HomeSync

theorem Capability.eq_of_typeCode {c c' : Capability} (hc : c ∈ table) (hc' : c' ∈ table)
    (h : c.typeCode = c'.typeCode) : c = c' := by
  have hnodup : (table.map (·.typeCode)).Nodup := by decide +kernel
  exact List.inj_on_of_nodup_map hnodup hc hc' h

/-- Where one comparison is made of two, place by place, so is the comparison of the
lists. -/
theorem map_eq_map_iff_and {α β γ δ : Type} {f : α → β} {g : α → γ} {k : α → δ} {P : α → Prop}
    (h : ∀ a b, P a → P b → (f a = f b ↔ g a = g b ∧ k a = k b)) {l l' : List α}
    (hl : ∀ a ∈ l, P a) (hl' : ∀ a ∈ l', P a) :
    l.map f = l'.map f ↔ l.map g = l'.map g ∧ l.map k = l'.map k := by
  induction l generalizing l' with
  | nil => cases l' <;> simp
  | cons a rest ih =>
    cases l' with
    | nil => simp
    | cons b rest' =>
      have hhead := h a b (hl a List.mem_cons_self) (hl' b List.mem_cons_self)
      have htail := ih (fun x hx => hl x (List.mem_cons_of_mem a hx))
        (fun x hx => hl' x (List.mem_cons_of_mem b hx))
      simp only [List.map_cons, List.cons.injEq, hhead, htail]
      constructor
      · rintro ⟨⟨hg, hk⟩, hgs, hks⟩
        exact ⟨⟨hg, hgs⟩, hk, hks⟩
      · rintro ⟨⟨hg, hgs⟩, hk, hks⟩
        exact ⟨⟨hg, hk⟩, hgs, hks⟩

namespace Binding

structure View where
  name : String
  typeCode : String
  getTopic : String
  setTopic : String
  min : Option Binary64.Number
  max : Option Binary64.Number
  step : Option Binary64.Number
  deriving DecidableEq

/-- A shown feature, with the bounds that its characteristic carries. -/
def view (b : Binding) : View where
  name := b.feature.name
  typeCode := b.typeCode
  getTopic := b.feature.getTopic
  setTopic := b.feature.setTopic
  min := b.characteristic.min.map Binary64.number
  max := b.characteristic.max.map Binary64.number
  step := b.characteristic.step.map Binary64.number

def shape (b : Binding) : Characteristic.Shape := b.characteristic.coded.shape

/-- The type code tells which capability it is, so format and writability need not be
in the view. -/
theorem view_eq_iff {b b' : Binding} (hb : b.capability ∈ Capability.table)
    (hb' : b'.capability ∈ Capability.table) :
    b.view = b'.view ↔ b.topics = b'.topics ∧ b.shape = b'.shape := by
  constructor
  · intro h
    obtain ⟨hname, hcode, hget, hset, hmin, hmax, hstep⟩ := View.mk.inj h
    have hcapability : b.capability = b'.capability := Capability.eq_of_typeCode hb hb' hcode
    refine ⟨by rw [topics, topics, hname, hget, hset], ?_⟩
    have hid : b.characteristic.coded.id = b'.characteristic.coded.id :=
      congrArg Identity.codeId hcode
    have hformat : b.characteristic.format = b'.characteristic.format :=
      congrArg Capability.format hcapability
    have hwritable : b.characteristic.writable = b'.characteristic.writable :=
      congrArg Capability.writable hcapability
    exact Characteristic.Shape.mk.injEq .. ▸ ⟨hid, hcode, hformat, hmin, hmax, hstep, hwritable⟩
  · rintro ⟨htopics, hshape⟩
    obtain ⟨hname, hget, hset⟩ : b.feature.name = b'.feature.name ∧
        b.feature.getTopic = b'.feature.getTopic ∧ b.feature.setTopic = b'.feature.setTopic := by
      simpa [topics] using htopics
    obtain ⟨-, hcode, -, hmin, hmax, hstep, -⟩ := Characteristic.Shape.mk.inj hshape
    exact View.mk.injEq .. ▸ ⟨hname, hcode, hget, hset, hmin, hmax, hstep⟩

end Binding

namespace Device

structure View where
  name : String
  manufacturer : String
  model : String
  serialNumber : String
  category : Nat
  mainService : Option String
  features : List Binding.View
  deriving DecidableEq

def view (d : Device) : View where
  name := if d.name.isEmpty then d.topic else d.name
  manufacturer := d.manufacturer
  model := d.model
  serialNumber := d.serialNumber
  category := Category.ofDeviceType d.deviceType
  mainService := if d.bindings.isEmpty then none else d.mainService?.map (·.typeCode)
  features := d.bindings.map Binding.view

theorem nameplate_eq_iff {d d' : Device} :
    d.nameplate = d'.nameplate ↔ d.view.name = d'.view.name ∧
      d.manufacturer = d'.manufacturer ∧ d.model = d'.model ∧
      d.serialNumber = d'.serialNumber := by
  rw [nameplate, nameplate, Nameplate.mk.injEq]
  rfl

/-! ## The shape of a blueprint -/

def mainShapes (d : Device) : List Service.Shape := d.mainServices.map (·.coded.shape)

theorem shape_blueprint (d : Device) :
    d.blueprint.accessory.shape =
      { id := Identity.topicId d.topic
        category := Category.ofDeviceType d.deviceType
        info := d.nameplate
        services := [Accessory.informationService {}, Accessory.bridgingService].map
          (·.coded.shape) ++ d.mainShapes } := by
  rw [accessory_blueprint, Accessory.shape, mainShapes]
  dsimp only
  rw [List.map_map, List.map_append]
  rfl

theorem mainShapes_of_ne_nil {d : Device} (h : d.bindings ≠ []) :
    ∃ kind, d.mainService? = some kind ∧
      d.mainShapes = [⟨Identity.codeId kind.typeCode, kind.typeCode, d.bindings.map Binding.shape⟩] := by
  cases hkind : d.mainService? with
  | none => exact absurd (bindings_of_mainService?_none hkind) h
  | some kind =>
    refine ⟨kind, rfl, ?_⟩
    have hne : ¬ d.bindings.isEmpty = true := fun he => h (List.isEmpty_iff.mp he)
    rw [mainShapes, mainServices, if_neg hne, hkind, Option.map_some, Option.toList_some,
      List.map_singleton, Service.shape, Service.coded]
    dsimp only
    rw [List.map_map, List.map_map]
    rfl

theorem mainShapes_of_nil {d : Device} (h : d.bindings = []) : d.mainShapes = [] := by
  rw [mainShapes, mainServices, h]
  rfl

theorem mainService_view_of_ne_nil {d : Device} (h : d.bindings ≠ []) {kind : ServiceKind}
    (hkind : d.mainService? = some kind) : d.view.mainService = some kind.typeCode := by
  have hne : ¬ d.bindings.isEmpty = true := fun he => h (List.isEmpty_iff.mp he)
  rw [view]
  dsimp only
  rw [if_neg hne, hkind, Option.map_some]

theorem map_view_bindings_iff {d d' : Device} :
    d.bindings.map Binding.view = d'.bindings.map Binding.view ↔
      d.bindings.map Binding.topics = d'.bindings.map Binding.topics ∧
      d.bindings.map Binding.shape = d'.bindings.map Binding.shape :=
  map_eq_map_iff_and (fun _ _ hb hb' => Binding.view_eq_iff hb hb')
    (fun _ hb => (mem_bindings hb).2) (fun _ hb => (mem_bindings hb).2)

/-- The main services and the topics of the bindings show what the view says of
them. -/
theorem mainShapes_eq_iff {d d' : Device} :
    (d.mainShapes = d'.mainShapes ∧
      d.bindings.map Binding.topics = d'.bindings.map Binding.topics) ↔
    d.view.mainService = d'.view.mainService ∧ d.view.features = d'.view.features := by
  have hfeatures : d.view.features = d'.view.features ↔ _ := map_view_bindings_iff
  rw [hfeatures]
  have hempty : d.bindings.map Binding.topics = d'.bindings.map Binding.topics →
      (d.bindings = [] ↔ d'.bindings = []) := by
    intro htopics
    rw [← List.map_eq_nil_iff (f := Binding.topics), htopics, List.map_eq_nil_iff]
  have hnone : ∀ d : Device, d.bindings = [] → d.view.mainService = none := by
    intro d hd
    rw [view, hd]
    rfl
  by_cases h : d.bindings = []
  · by_cases h' : d'.bindings = []
    · rw [mainShapes_of_nil h, mainShapes_of_nil h', hnone d h, hnone d' h', h, h']
      exact ⟨fun _ => ⟨rfl, rfl, rfl⟩, fun _ => ⟨rfl, rfl⟩⟩
    · exact ⟨fun hs => absurd ((hempty hs.2).mp h) h', fun hs => absurd ((hempty hs.2.1).mp h) h'⟩
  · by_cases h' : d'.bindings = []
    · exact ⟨fun hs => absurd ((hempty hs.2).mpr h') h, fun hs => absurd ((hempty hs.2.1).mpr h') h⟩
    · obtain ⟨kind, hkind, hshapes⟩ := mainShapes_of_ne_nil h
      obtain ⟨kind', hkind', hshapes'⟩ := mainShapes_of_ne_nil h'
      rw [hshapes, hshapes', mainService_view_of_ne_nil h hkind,
        mainService_view_of_ne_nil h' hkind', List.singleton_inj, Service.Shape.mk.injEq,
        Option.some.injEq]
      constructor
      · rintro ⟨⟨-, hcode, hshape⟩, htopics⟩
        exact ⟨hcode, htopics, hshape⟩
      · rintro ⟨hcode, htopics, hshape⟩
        exact ⟨⟨congrArg Identity.codeId hcode, hcode, hshape⟩, htopics⟩

/-- Devices with one topic have blueprints alike exactly if they have one view. -/
theorem view_eq_iff {d d' : Device} (htopic : d.topic = d'.topic) :
    d.view = d'.view ↔ d.blueprint.accessory.shape = d'.blueprint.accessory.shape ∧
      d.bindings.map Binding.topics = d'.bindings.map Binding.topics := by
  have hview : d.view = d'.view ↔ d.view.name = d'.view.name ∧
      d.manufacturer = d'.manufacturer ∧ d.model = d'.model ∧
      d.serialNumber = d'.serialNumber ∧
      Category.ofDeviceType d.deviceType = Category.ofDeviceType d'.deviceType ∧
      d.view.mainService = d'.view.mainService ∧ d.view.features = d'.view.features := by
    constructor
    · intro h
      exact View.mk.inj h
    · intro h
      exact View.mk.injEq .. ▸ h
  rw [shape_blueprint, shape_blueprint, Accessory.Shape.mk.injEq, List.append_cancel_left_eq,
    nameplate_eq_iff, hview, ← mainShapes_eq_iff, htopic]
  constructor
  · rintro ⟨hname, hmanufacturer, hmodel, hserial, hcategory, hmain, htopics⟩
    exact ⟨⟨rfl, hcategory, ⟨hname, hmanufacturer, hmodel, hserial⟩, hmain⟩, htopics⟩
  · rintro ⟨⟨-, hcategory, ⟨hname, hmanufacturer, hmodel, hserial⟩, hmain⟩, htopics⟩
    exact ⟨hname, hmanufacturer, hmodel, hserial, hcategory, hmain, htopics⟩

end Device

namespace Hub

/-- An accessory that presents a device fits another one of the same topic exactly if
the devices have one view. -/
theorem fits_iff_view {h : Hub} {i : Installed} {d d' : Device} (hp : h.Presents i d)
    (htopic : d.topic = d'.topic) : h.fits i d'.blueprint = true ↔ d.view = d'.view := by
  obtain ⟨⟨a, ha, hstructure, -⟩, htopics⟩ := hp
  obtain ⟨hbounded, hshape⟩ := (Accessory.sameStructure_iff _ _).mp hstructure
  rw [fits_eq_true_iff, htopics, Device.view_eq_iff htopic, ← hshape, Device.bindings_blueprint,
    Device.bindings_blueprint]
  constructor
  · rintro ⟨⟨a', ha', hfits⟩, hsame⟩
    obtain rfl : a = a' := Option.some.inj (ha.symm.trans ha')
    exact ⟨((Accessory.sameStructure_iff _ _).mp hfits).2, hsame⟩
  · rintro ⟨hfits, hsame⟩
    exact ⟨⟨a, ha, (Accessory.sameStructure_iff _ _).mpr ⟨hbounded, hfits⟩⟩, hsame⟩

end Hub
end HomeSync
