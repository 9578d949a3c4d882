import HomeSync.Proofs.Device.Made
import HomeSync.Proofs.Json.Records

/-
A device survives its announcement.

The announcement leaves out what attaching a feature records, the name and the owner.
Both come back when the features are attached to the decoded device, because a device
keeps its features under their names and its topic is never assigned.
-/
namespace HomeSync

namespace Feature

/-- The feature without what attaching it has recorded. -/
def bare (f : Feature) : Feature := { f with name := "", owner := none }

theorem attach_bare (f : Feature) (topic name : String) :
    f.bare.attach topic name = f.attach topic name := rfl

/-- The topics that attaching fills in are not empty, so attaching again fills in
nothing. -/
theorem attach_attach (f : Feature) (topic name : String) :
    (f.attach topic name).attach topic name = f.attach topic name := by
  have hfilled : ∀ s kind : String,
      (if (if s.isEmpty then topic ++ "/" ++ name ++ kind else s).isEmpty then
          topic ++ "/" ++ name ++ kind
        else if s.isEmpty then topic ++ "/" ++ name ++ kind else s) =
      if s.isEmpty then topic ++ "/" ++ name ++ kind else s := by
    intro s kind
    by_cases hs : s.isEmpty = true
    · rw [if_pos hs, ite_self]
    · rw [if_neg hs, if_neg hs]
  rw [attach, attach]
  congr 1
  · exact hfilled f.getTopic "/get"
  · exact hfilled f.setTopic "/set"

/-! ## The metadata of a feature -/

def fields (f : Feature) : List (String × Option Json) :=
  [("min", f.min.map .ofWord), ("max", f.max.map .ofWord), ("step", f.step.map .ofWord),
    ("getTopic", Json.filled f.getTopic), ("setTopic", Json.filled f.setTopic)]

theorem toJson_eq_record (f : Feature) : f.toJson = .record f.fields := by
  have htext : ∀ name s : String, ((Json.filled s).map (Json.member name)).toList =
      if s.isEmpty then [] else [Json.member name (.ofString s)] := by
    intro name s
    rw [Json.filled]
    split <;> rfl
  rw [toJson, Json.record, fields]
  simp only [Json.members_cons, Json.members_nil, htext, Option.map_map, List.append_assoc,
    List.append_nil]
  rfl

theorem ofJson?_toJson (f : Feature) : ofJson? f.toJson = some f.bare := by
  have hfields : f.toJson.fields? fieldNames = some (f.fields.map Prod.snd) := by
    rw [toJson_eq_record]
    exact Json.fields?_record (by decide : fieldNames.Nodup)
  rw [ofJson?, hfields]
  simp only [fields, List.map_cons, List.map_nil, Json.optionalWord?_map_ofWord,
    Json.textField?_filled]
  rfl

theorem spelled_toJson (f : Feature) : f.toJson.Spelled := by
  have hword : ∀ (n : Option Int64) (v : Json), some v = n.map .ofWord → v.Spelled := by
    intro n v hv
    obtain ⟨n, -, rfl⟩ := Option.map_eq_some_iff.mp hv.symm
    exact Json.spelled_ofWord n
  have htext : ∀ (s : String) (v : Json), some v = Json.filled s → v.Spelled := by
    intro s v hv
    rw [Json.filled] at hv
    split at hv
    · simp at hv
    · exact Option.some.inj hv ▸ Json.spelled_ofString s
  rw [toJson_eq_record]
  apply Json.spelled_record
  intro name v hv
  simp only [fields, List.mem_cons, Prod.mk.injEq, List.not_mem_nil, or_false] at hv
  rcases hv with ⟨-, hv⟩ | ⟨-, hv⟩ | ⟨-, hv⟩ | ⟨-, hv⟩ | ⟨-, hv⟩
  · exact hword f.min v hv
  · exact hword f.max v hv
  · exact hword f.step v hv
  · exact htext f.getTopic v hv
  · exact htext f.setTopic v hv

end Feature

namespace Metadata

theorem mapM_features (l : List (String × Feature)) :
    (l.map fun f => Json.member f.1 f.2.toJson).mapM
        (fun (m : List UInt8 × Json) => do
          return (← Json.textOf? m.1, ← Feature.ofJson? m.2)) =
      some (l.map fun f => (f.1, f.2.bare)) := by
  induction l with
  | nil => rfl
  | cons f rest ih =>
    rw [List.map_cons, List.mapM_cons, ih, Json.member, Json.textOf?_literal,
      Feature.ofJson?_toJson]
    rfl

theorem features?_toJson (m : SortedMap String Feature) :
    features? (some (.object (m.toList.map fun f => Json.member f.1 f.2.toJson))) =
      some (m.map fun _ f => f.bare) := by
  have hlist : m.toList.map (fun f => (f.1, f.2.bare)) = (m.map fun _ f => f.bare).toList := rfl
  rw [features?, mapM_features, Option.map_some, hlist, SortedMap.ofList_toList]

end Metadata

namespace Device

/-! ## The metadata of a device -/

def fields (d : Device) : List (String × Option Json) :=
  [("topic", some (.ofString d.topic)), ("name", some (.ofString d.name)),
    ("manufacturer", some (.ofString d.manufacturer)), ("model", some (.ofString d.model)),
    ("serialNumber", some (.ofString d.serialNumber)), ("type", some (.ofString d.deviceType)),
    ("lastWillID", d.lastWill.map .ofString),
    ("feature", some (.object (d.features.toList.map fun f => Json.member f.1 f.2.toJson)))]

theorem toJson_eq_record (d : Device) : d.toJson = .record d.fields := by
  rw [toJson, Json.record, fields]
  simp only [Json.members_cons, Option.map_some, Option.map_map, Option.toList_some,
    List.cons_append, List.nil_append]
  rfl

/-- What the announcement of a device says about it. -/
def metadata (d : Device) : Metadata where
  topic := d.topic
  name := d.name
  manufacturer := d.manufacturer
  model := d.model
  serialNumber := d.serialNumber
  deviceType := d.deviceType
  lastWill := d.lastWill
  features := d.features.map fun _ f => f.bare

theorem ofJson?_toJson (d : Device) : Metadata.ofJson? d.toJson = some d.metadata := by
  have hfields : d.toJson.fields? Metadata.fieldNames = some (d.fields.map Prod.snd) := by
    rw [toJson_eq_record]
    exact Json.fields?_record (by decide : Metadata.fieldNames.Nodup)
  rw [Metadata.ofJson?, hfields]
  simp only [fields, List.map_cons, List.map_nil, Json.textField?_ofString,
    Json.optionalText?_map_ofString, Metadata.features?_toJson]
  rfl

theorem spelled_toJson (d : Device) : d.toJson.Spelled := by
  have hfeatures :
      (Json.object (d.features.toList.map fun f => Json.member f.1 f.2.toJson)).Spelled := by
    refine .object ?_ ?_
    · intro m hm
      obtain ⟨f, -, rfl⟩ := List.mem_map.mp hm
      exact Json.Reader.textLiteral_literal f.1
    · intro m hm
      obtain ⟨f, -, rfl⟩ := List.mem_map.mp hm
      exact f.2.spelled_toJson
  rw [toJson_eq_record]
  apply Json.spelled_record
  intro name v hv
  simp only [fields, List.mem_cons, Prod.mk.injEq, Option.some.injEq, List.not_mem_nil,
    or_false] at hv
  rcases hv with ⟨-, rfl⟩ | ⟨-, rfl⟩ | ⟨-, rfl⟩ | ⟨-, rfl⟩ | ⟨-, rfl⟩ | ⟨-, rfl⟩ | ⟨-, hv⟩ | ⟨-, rfl⟩
  iterate 6 exact Json.spelled_ofString _
  · obtain ⟨id, -, rfl⟩ := Option.map_eq_some_iff.mp hv.symm
    exact Json.spelled_ofString id
  · exact hfeatures

theorem decode?_announcement (d : Device) :
    Metadata.decode? d.announcement.payload = some d.metadata := by
  rw [Metadata.decode?, announcement, Json.parse?_render d.spelled_toJson, Option.bind_some,
    ofJson?_toJson]

/-! ## Attaching the decoded features -/

theorem foldl_addFeature_eq (l : List (String × Feature)) (d : Device) :
    l.foldl (fun d f => d.addFeature f.1 f.2) d =
      { d with
        features := (l.map fun f => (f.1, f.2.attach d.topic f.1)).foldl
          (fun m e => m.insert e.1 e.2) d.features } := by
  induction l generalizing d with
  | nil => rfl
  | cons f rest ih => rw [List.foldl_cons, ih, addFeature, List.map_cons, List.foldl_cons]

/-- The features of decoded metadata are those of the metadata, attached. -/
theorem withMetadata_eq (d : Device) (m : Metadata) :
    d.withMetadata m =
      { topic := if d.topic.isEmpty then m.topic else d.topic
        name := m.name
        manufacturer := m.manufacturer
        model := m.model
        serialNumber := m.serialNumber
        deviceType := m.deviceType
        lastWill := m.lastWill.filter fun id => !id.isEmpty
        reachable := d.reachable
        features := m.features.map fun name f =>
          f.attach (if d.topic.isEmpty then m.topic else d.topic) name } := by
  rw [withMetadata, foldl_addFeature_eq]
  congr 1
  exact SortedMap.ofList_toList (m.features.map fun name f =>
    f.attach (if d.topic.isEmpty then m.topic else d.topic) name)

/-! ## Devices with a lasting topic -/

/-- The devices that can be made without assigning a topic. -/
inductive Grown : Device → Prop
  | fresh (topic : String) : Grown { topic }
  | decoded {d : Device} {payload : Payload} : ofPayload payload = .ok d → Grown d
  | applyMetadata {d d' : Device} {payload : Payload} :
      Grown d → d.applyMetadata payload = .ok d' → Grown d'
  | addFeature {d : Device} (name : String) (f : Feature) : Grown d → Grown (d.addFeature name f)
  | removeFeature {d d' : Device} {name : String} {f : Feature} :
      Grown d → d.removeFeature name = .ok (d', f) → Grown d'
  | assign {d : Device} (name manufacturer model serialNumber deviceType : String)
      (lastWill : Option String) (reachable : Bool) :
      Grown d → Grown { d with
        name, manufacturer, model, serialNumber, deviceType, lastWill, reachable }

theorem made_of_grown {d : Device} (h : d.Grown) : d.Made := by
  induction h with
  | fresh topic => exact .fresh topic
  | decoded hdecode => exact .applyMetadata (.fresh "") hdecode
  | applyMetadata _ happly ih => exact .applyMetadata ih happly
  | addFeature name f _ ih => exact .addFeature name f ih
  | removeFeature _ hremove ih => exact .removeFeature ih hremove
  | @assign d name manufacturer model serialNumber deviceType lastWill reachable _ ih =>
    exact .assign d.topic name manufacturer model serialNumber deviceType lastWill reachable ih

/-- Every feature is as attaching it to the device under its name leaves it. -/
def Fitted (d : Device) : Prop :=
  ∀ name f, d.features.find? name = some f → f.attach d.topic name = f

theorem fitted_withMetadata (d : Device) (m : Metadata) : (d.withMetadata m).Fitted := by
  intro name f hf
  rw [withMetadata_eq] at hf ⊢
  rw [SortedMap.find?_map] at hf
  obtain ⟨g, -, rfl⟩ := Option.map_eq_some_iff.mp hf
  exact Feature.attach_attach g _ name

theorem fitted_addFeature {d : Device} (h : d.Fitted) (name : String) (f : Feature) :
    (d.addFeature name f).Fitted := by
  intro name' f' hf
  rw [addFeature] at hf
  rcases SortedMap.find?_insert_eq_some_iff.mp hf with ⟨rfl, rfl⟩ | ⟨-, hf⟩
  · exact Feature.attach_attach f d.topic name
  · exact h name' f' hf

theorem fitted_of_grown {d : Device} (h : d.Grown) : d.Fitted := by
  induction h with
  | fresh topic =>
    intro name f hf
    simp at hf
  | decoded hdecode =>
    obtain ⟨m, -, rfl⟩ := applyMetadata_eq_ok_iff.mp hdecode
    exact fitted_withMetadata _ m
  | applyMetadata _ happly _ =>
    obtain ⟨m, -, rfl⟩ := applyMetadata_eq_ok_iff.mp happly
    exact fitted_withMetadata _ m
  | addFeature name f _ ih => exact fitted_addFeature ih name f
  | removeFeature _ hremove ih =>
    intro name f hf
    rw [removeFeature_eq_ok hremove, SortedMap.find?_erase_eq_some_iff] at hf
    rw [removeFeature_eq_ok hremove]
    exact ih name f hf.2
  | assign _ _ _ _ _ _ _ _ ih => exact ih

/-- Reading what a device has written gives the device back, but for a will without a
token, which is read as none, and for its presence, which is not written. -/
theorem withMetadata_metadata {d : Device} (h : d.Fitted) :
    ({ topic := "" } : Device).withMetadata d.metadata =
      { d with lastWill := d.lastWill.filter fun id => !id.isEmpty, reachable := false } := by
  have hfeatures : (d.features.map fun _ f => f.bare).map (fun name f => f.attach d.topic name) =
      d.features := by
    apply SortedMap.ext_find?
    intro name
    rw [SortedMap.find?_map, SortedMap.find?_map]
    cases hf : d.features.find? name with
    | none => rfl
    | some f =>
      rw [Option.map_some, Option.map_some, Feature.attach_bare, h name f hf]
  have htopic : (if "".isEmpty = true then d.topic else "") = d.topic := rfl
  rw [withMetadata_eq, metadata]
  simp only [htopic, hfeatures]

/-- Decoding the announcement of a device gives the device back. -/
theorem ofPayload_announcement {d : Device} (h : d.Grown) (hwill : d.lastWill ≠ some "")
    (hgone : d.reachable = false) : ofPayload d.announcement.payload = .ok d := by
  have hfilter : (d.lastWill.filter fun id => !id.isEmpty) = d.lastWill := by
    cases hid : d.lastWill with
    | none => rfl
    | some id =>
      have hne : id ≠ "" := fun he => hwill (he ▸ hid)
      simpa using hne
  have hsame : { d with lastWill := d.lastWill, reachable := false } = d := by rw [← hgone]
  rw [ofPayload, applyMetadata, decode?_announcement]
  simp only [withMetadata_metadata (fitted_of_grown h), hfilter, hsame]

/-- A device with texts of all kinds and the widest bounds. -/
def quotedDial : Device :=
  { (({ topic := "flat/\"dial\"\\" } : Device).addFeature "größe\n"
      { min := some Int64.minValue, max := some Int64.maxValue, step := some (-1),
        getTopic := "\t𝄞/get" }).addFeature "" {} with
    name := "\x01\x1f\x7f", manufacturer := "\\u0041", model := "\r/\x08", serialNumber := ""
    deviceType := "lightBulb", lastWill := some "\"", reachable := false }

theorem grown_quotedDial : quotedDial.Grown :=
  .assign _ _ _ _ _ _ _ (.addFeature _ _ (.addFeature _ _ (.fresh _)))

theorem ofPayload_announcement_quotedDial :
    quotedDial.lastWill ≠ some "" ∧ quotedDial.reachable = false ∧
      ofPayload quotedDial.announcement.payload = .ok quotedDial :=
  ⟨by decide, rfl, ofPayload_announcement grown_quotedDial (by decide) rfl⟩

end Device
end HomeSync
