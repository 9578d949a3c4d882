import HomeSync.Device.Metadata
import HomeSync.Registry
import HomeSync.SortedMap.Lemmas

/-
How devices come about.

A device starts with a topic and no features.  After that its feature map only
changes by decoding metadata, attaching and detaching, while every other field
may be assigned.  So every feature of a device is attached, whatever was done to
the device.
-/
namespace HomeSync
namespace Device

/-- The devices that can be made at all. -/
inductive Made : Device → Prop
  | fresh (topic : String) : Made { topic }
  | applyMetadata {d d' : Device} {payload : Payload} :
      Made d → d.applyMetadata payload = .ok d' → Made d'
  | addFeature {d : Device} (name : String) (f : Feature) : Made d → Made (d.addFeature name f)
  | removeFeature {d d' : Device} {name : String} {f : Feature} :
      Made d → d.removeFeature name = .ok (d', f) → Made d'
  | assign {d : Device} (topic name manufacturer model serialNumber deviceType : String)
      (lastWill : Option String) (reachable : Bool) :
      Made d → Made { d with
        topic, name, manufacturer, model, serialNumber, deviceType, lastWill, reachable }

def Attached (d : Device) : Prop :=
  ∀ name f, d.features.find? name = some f → f.isAttached = true

/-! ## Attaching a list of features -/

theorem isAttached_attach (f : Feature) (topic name : String) :
    (f.attach topic name).isAttached = true := rfl

theorem attached_addFeature {d : Device} (h : d.Attached) (name : String) (f : Feature) :
    (d.addFeature name f).Attached := by
  intro name' f' hf
  rw [addFeature] at hf
  rcases SortedMap.find?_insert_eq_some_iff.mp hf with ⟨-, rfl⟩ | ⟨-, hf⟩
  · exact isAttached_attach f d.topic name
  · exact h name' f' hf

/-- Attaching features changes nothing but the feature map. -/
theorem foldl_addFeature (l : List (String × Feature)) (d : Device) :
    ∃ features, l.foldl (fun d f => d.addFeature f.1 f.2) d = { d with features } := by
  induction l generalizing d with
  | nil => exact ⟨d.features, rfl⟩
  | cons e rest ih =>
    obtain ⟨features, h⟩ := ih (d.addFeature e.1 e.2)
    exact ⟨features, h⟩

theorem attached_foldl_addFeature (l : List (String × Feature)) {d : Device} (h : d.Attached) :
    (l.foldl (fun d f => d.addFeature f.1 f.2) d).Attached :=
  List.foldlRecOn l _ h fun _ hd e _ => attached_addFeature hd e.1 e.2

/-! ## Decoding metadata -/

theorem withMetadata_topic (d : Device) (m : Metadata) :
    (d.withMetadata m).topic = if d.topic.isEmpty then m.topic else d.topic := by
  obtain ⟨features, h⟩ := foldl_addFeature m.features.toList _
  rw [withMetadata, h]

theorem withMetadata_lastWill (d : Device) (m : Metadata) :
    (d.withMetadata m).lastWill = m.lastWill.filter fun id => !id.isEmpty := by
  obtain ⟨features, h⟩ := foldl_addFeature m.features.toList _
  rw [withMetadata, h]

/-- None of the old features is left, so the old ones need not be attached. -/
theorem attached_withMetadata (d : Device) (m : Metadata) : (d.withMetadata m).Attached := by
  apply attached_foldl_addFeature
  intro name f hf
  simp at hf

theorem applyMetadata_eq_ok_iff {d d' : Device} {payload : Payload} :
    d.applyMetadata payload = .ok d' ↔
      ∃ m, Metadata.decode? payload = some m ∧ d' = d.withMetadata m := by
  rw [applyMetadata]
  cases Metadata.decode? payload with
  | none => simp
  | some m => simp [eq_comm]

theorem removeFeature_eq_ok {d d' : Device} {name : String} {f : Feature}
    (h : d.removeFeature name = .ok (d', f)) :
    d' = { d with features := d.features.erase name } := by
  rw [removeFeature, getFeature] at h
  cases hfind : d.features.find? name with
  | none => simp [hfind, Except.map] at h
  | some g =>
    simp only [hfind, Except.map, Except.ok.injEq, Prod.mk.injEq] at h
    exact h.1.symm

theorem attached_of_made {d : Device} (h : d.Made) : d.Attached := by
  induction h with
  | fresh topic =>
    intro name f hf
    simp at hf
  | applyMetadata _ happly _ =>
    obtain ⟨m, -, rfl⟩ := applyMetadata_eq_ok_iff.mp happly
    exact attached_withMetadata _ m
  | addFeature name f _ ih => exact attached_addFeature ih name f
  | removeFeature _ hremove ih =>
    intro name' f' hf
    rw [removeFeature_eq_ok hremove, SortedMap.find?_erase_eq_some_iff] at hf
    exact ih name' f' hf.2
  | assign _ _ _ _ _ _ _ _ _ ih => exact ih

/-! ## Announced devices -/

theorem announced?_eq_some_iff {topic : String} {payload : Payload} {d : Device} :
    announced? topic payload = some d ↔
      ∃ m, Metadata.decode? payload = some m ∧
        d = { ({ topic } : Device).withMetadata m with reachable := true } := by
  rw [announced?, applyMetadata]
  cases Metadata.decode? payload with
  | none => simp
  | some m => simp [eq_comm]

theorem announced?_eq_none_iff {topic : String} {payload : Payload} :
    announced? topic payload = none ↔ Metadata.decode? payload = none := by
  rw [announced?, applyMetadata]
  cases Metadata.decode? payload <;> simp

/-- A device is known under the topic that it was announced under, as long as
there is one. -/
theorem announced?_topic {topic : String} {payload : Payload} {d : Device} (hne : topic ≠ "")
    (h : announced? topic payload = some d) : d.topic = topic := by
  obtain ⟨m, -, rfl⟩ := announced?_eq_some_iff.mp h
  rw [withMetadata_topic, if_neg]
  simpa using hne

end Device
end HomeSync
