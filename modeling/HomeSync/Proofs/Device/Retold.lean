import Mathlib.Data.List.Nodup
import HomeSync.Proofs.Device.Codec
import HomeSync.Proofs.Json.Members
import HomeSync.Proofs.Json.Sound

/-
A device is what the named members of its announcement say.

An announcement may be told again with other members among those that have a field, in
the announcement itself and in the features, and with the members in another order.  The
features of one name are not told apart by anything but their order, so their order is
free only where each name comes once.  Whatever an announcement has under the names of
what is no part of the metadata, it has no effect.
-/
namespace HomeSync

namespace Feature

/-- The same feature with other members among its own, in any order. -/
inductive Retold : Json → Json → Prop
  | same (j : Json) : Retold j j
  | mixed {members members' : List (List UInt8 × Json)} :
      Json.Mixed fieldNames members members' → Retold (.object members) (.object members')

theorem ofJson?_retold {j j' : Json} (h : Retold j j') : ofJson? j' = ofJson? j := by
  cases h with
  | same => rfl
  | mixed hmixed => rw [ofJson?, ofJson?, Json.fields?_mixed hmixed]

theorem unnamed_of_ofJson? {j : Json} {f : Feature} (h : ofJson? j = some f) :
    f.name = "" ∧ f.owner = none := by
  rw [ofJson?] at h
  split at h
  · simp only [Option.bind_eq_bind, Option.bind_eq_some_iff, Option.pure_def,
      Option.some.injEq] at h
    obtain ⟨_, -, _, -, _, -, _, -, _, -, rfl⟩ := h
    exact ⟨rfl, rfl⟩
  · simp at h

end Feature

namespace Metadata

/-- Each feature told again, in the same order or, where no two have one name, in any. -/
inductive FeaturesRetold : Json → Json → Prop
  | each {entries entries' : List (List UInt8 × Json)} :
      List.Forall₂ (fun e e' => e'.1 = e.1 ∧ Feature.Retold e.2 e'.2) entries entries' →
      FeaturesRetold (.object entries) (.object entries')
  | reordered {entries told entries' : List (List UInt8 × Json)} :
      List.Forall₂ (fun e e' => e'.1 = e.1 ∧ Feature.Retold e.2 e'.2) entries told →
      (entries.map fun e => Json.textOf? e.1).Nodup → entries'.Perm told →
      FeaturesRetold (.object entries) (.object entries')

/-- A member under which only the features may be told otherwise. -/
def Said (name : String) (j j' : Json) : Prop :=
  j' = j ∨ (name = "feature" ∧ FeaturesRetold j j')

/-- The same announcement with other members among its own, in any order, and with its
features told again. -/
inductive Retold : Json → Json → Prop
  | mixed {members told members' : List (List UInt8 × Json)} :
      List.Forall₂ (Json.Revalued Said) members told → Json.Mixed fieldNames told members' →
      Retold (.object members) (.object members')

/-! ## Features -/

def feature? (e : List UInt8 × Json) : Option (String × Feature) := do
  return (← Json.textOf? e.1, ← Feature.ofJson? e.2)

theorem features?_object (entries : List (List UInt8 × Json)) :
    features? (some (.object entries)) = (entries.mapM feature?).map SortedMap.ofList := rfl

theorem mapM_feature?_retold {entries entries' : List (List UInt8 × Json)}
    (h : List.Forall₂ (fun e e' => e'.1 = e.1 ∧ Feature.Retold e.2 e'.2) entries entries') :
    entries'.mapM feature? = entries.mapM feature? := by
  induction h with
  | nil => rfl
  | @cons e e' _ _ he _ ih =>
    have hfeature : feature? e' = feature? e := by
      rw [feature?, feature?, he.1, Feature.ofJson?_retold he.2]
    rw [List.mapM_cons, List.mapM_cons, hfeature, ih]

theorem names_of_mapM_feature? {entries : List (List UInt8 × Json)}
    {features : List (String × Feature)} (h : entries.mapM feature? = some features) :
    features.map (some ∘ Prod.fst) = entries.map fun e => Json.textOf? e.1 := by
  have hall := mapM_eq_some_iff.mp h
  clear h
  induction hall with
  | nil => rfl
  | @cons e f _ _ he _ ih =>
    rw [List.map_cons, List.map_cons, ih]
    simp only [feature?, Option.bind_eq_bind, Option.bind_eq_some_iff, Option.pure_def,
      Option.some.injEq] at he
    obtain ⟨name, hname, _, -, rfl⟩ := he
    rw [hname]
    rfl

theorem features?_retold {j j' : Json} (h : FeaturesRetold j j') :
    features? (some j') = features? (some j) := by
  cases h with
  | each htold => rw [features?_object, features?_object, mapM_feature?_retold htold]
  | @reordered entries told entries' htold hnodup hperm =>
    -- of two features under one name the later one counts, so here the names have to differ
    rw [features?_object, features?_object, ← mapM_feature?_retold htold]
    cases hfeatures : told.mapM feature? with
    | none => rw [mapM_perm_eq_none hperm hfeatures]
    | some features =>
      obtain ⟨features', hfeatures', hperm'⟩ := mapM_perm hperm hfeatures
      rw [mapM_feature?_retold htold] at hfeatures
      rw [← names_of_mapM_feature? hfeatures, ← List.map_map] at hnodup
      rw [hfeatures', Option.map_some, Option.map_some,
        SortedMap.ofList_perm (List.Nodup.of_map some hnodup) hperm']

/-! ## Announcements -/

theorem features?_of_said {value value' : Option Json}
    (h : Option.Rel (Said "feature") value value') : features? value' = features? value := by
  cases h with
  | none => rfl
  | some hsaid =>
    rcases hsaid with rfl | ⟨-, htold⟩
    · rfl
    · exact features?_retold htold

theorem ofJson?_revalued {members members' : List (List UInt8 × Json)}
    (h : List.Forall₂ (Json.Revalued Said) members members') :
    ofJson? (.object members') = ofJson? (.object members) := by
  obtain ⟨hnone, hnone'⟩ | ⟨value, value', hvalue, hvalue', hrel⟩ :=
    Json.fields?_revalued fieldNames h
  · rw [ofJson?, ofJson?, hnone, hnone']
  · have hsame : ∀ name, name ≠ "feature" → value' name = value name :=
      fun name hname => Json.eq_of_rel (hrel name) fun h => h.resolve_right fun hf => hname hf.1
    rw [ofJson?, ofJson?, hvalue, hvalue']
    simp only [fieldNames, List.map_cons, List.map_nil, features?_of_said (hrel "feature"),
      hsame "topic" (by decide), hsame "name" (by decide), hsame "manufacturer" (by decide),
      hsame "model" (by decide), hsame "serialNumber" (by decide), hsame "type" (by decide),
      hsame "lastWillID" (by decide)]

theorem ofJson?_retold {j j' : Json} (h : Retold j j') : ofJson? j' = ofJson? j := by
  cases h with
  | mixed hsaid hmixed =>
    rw [← ofJson?_revalued hsaid, ofJson?, ofJson?, Json.fields?_mixed hmixed]

theorem decode?_retold {j j' : Json} {payload payload' : Payload} (h : Retold j j')
    (hpayload : Json.Document j payload) (hpayload' : Json.Document j' payload') :
    decode? payload' = decode? payload := by
  rw [decode?, decode?, Json.parse?_of_document hpayload, Json.parse?_of_document hpayload',
    Option.bind_some, Option.bind_some, ofJson?_retold h]

end Metadata

namespace Device

theorem of_ofPayload {d : Device} {payload : Payload} (h : ofPayload payload = .ok d) :
    d.reachable = false ∧
      ∀ name f, d.features.find? name = some f → f.name = name ∧ f.owner = some d.topic := by
  obtain ⟨m, -, rfl⟩ := applyMetadata_eq_ok_iff.mp h
  rw [withMetadata_eq]
  refine ⟨rfl, fun name f hf => ?_⟩
  rw [SortedMap.find?_map] at hf
  obtain ⟨g, -, rfl⟩ := Option.map_eq_some_iff.mp hf
  exact ⟨rfl, rfl⟩

/-- Let an announcement be accepted that is the text of an object.  Every text of the object
told again is accepted as the same device.  Nothing that is announced makes the device
reachable, a feature is named and owned as the device attaches it, and on its own it has
neither a name nor an owner. -/
theorem ofPayload_retold {d : Device} {members : List (List UInt8 × Json)} {told : Json}
    {payload payload' : Payload} (h : ofPayload payload = .ok d)
    (hpayload : Json.Document (.object members) payload)
    (htold : Metadata.Retold (.object members) told) (hpayload' : Json.Document told payload') :
    ofPayload payload' = .ok d ∧ d.reachable = false ∧
      (∀ name f, d.features.find? name = some f → f.name = name ∧ f.owner = some d.topic) ∧
      ∀ bytes f, Feature.decode? bytes = some f → f.name = "" ∧ f.owner = none := by
  have hsame : ofPayload payload' = ofPayload payload := by
    rw [ofPayload, ofPayload, applyMetadata, applyMetadata,
      Metadata.decode?_retold htold hpayload hpayload']
  refine ⟨hsame.trans h, (of_ofPayload h).1, (of_ofPayload h).2, fun bytes f hf => ?_⟩
  obtain ⟨j, -, hj⟩ := Option.bind_eq_some_iff.mp hf
  exact Feature.unnamed_of_ofJson? hj

/-- A lamp with a switch and a dimmer. -/
def dimmedLamp : Device :=
  (({ topic := "lamp" } : Device).addFeature "on" { min := some 0 }).addFeature "dim" {}

def dimmedLampText : Payload :=
  Utf8.encode "\x7b\"topic\":\"lamp\",\"feature\":\x7b\"on\":\x7b\"min\":0\x7d,\"dim\":\x7b\x7d\x7d\x7d"

/-- Everything in reverse order, with members that would say more than they may. -/
def dimmedLampRetold : Payload :=
  Utf8.encode "\x7b\"Topic\":[],\"reachable\":true,\n\"feature\":\x7b\"dim\":\x7b\x7d,"
    ++ Utf8.encode "\"on\":\x7b\"device\":[\x7b\x7d], \"name\":\"\",\"min\":0\x7d\x7d,"
    ++ Utf8.encode "\"topic\":\"lamp\"\x7d "

def switch : Json := .object [Json.member "min" (.ofWord 0)]

def switchRetold : Json :=
  .object [Json.member "device" (.array [.object []]), Json.member "name" (.ofString ""),
    Json.member "min" (.ofWord 0)]

def dimmedLampMembers : List (List UInt8 × Json) :=
  [Json.member "topic" (.ofString "lamp"),
    Json.member "feature" (.object [Json.member "on" switch, Json.member "dim" (.object [])])]

def dimmedLampMembersRetold : List (List UInt8 × Json) :=
  [Json.member "Topic" (.array []), Json.member "reachable" (.bool true),
    Json.member "feature" (.object [Json.member "dim" (.object []), Json.member "on" switchRetold]),
    Json.member "topic" (.ofString "lamp")]

theorem retold_switch : Feature.Retold switch switchRetold := by
  refine .mixed (Json.mixed_of_perm [Json.member "name" (.ofString ""),
    Json.member "device" (.array [.object []])] ?_ (List.reverse_perm [_, _, _]))
  exact List.forall_mem_cons.mpr ⟨Json.stranger_member (by decide),
    List.forall_mem_singleton.mpr (Json.stranger_member (by decide))⟩

theorem retold_dimmedLampMembers :
    Metadata.Retold (.object dimmedLampMembers) (.object dimmedLampMembersRetold) := by
  have hdistinct : ([Json.member "on" switch, Json.member "dim" (.object [])].map
      fun e => Json.textOf? e.1).Nodup := by
    simp [Json.member, Json.textOf?_literal]
  have htold : List.Forall₂ (fun e e' => e'.1 = e.1 ∧ Feature.Retold e.2 e'.2)
      [Json.member "on" switch, Json.member "dim" (.object [])]
      [Json.member "on" switchRetold, Json.member "dim" (.object [])] :=
    .cons ⟨rfl, retold_switch⟩ (.cons ⟨rfl, .same _⟩ .nil)
  have hfeatures : Metadata.FeaturesRetold _
      (.object [Json.member "dim" (.object []), Json.member "on" switchRetold]) :=
    .reordered htold hdistinct (List.reverse_perm [_, _])
  have hsaid : List.Forall₂ (Json.Revalued Metadata.Said) dimmedLampMembers
      [Json.member "topic" (.ofString "lamp"), Json.member "feature"
        (.object [Json.member "dim" (.object []), Json.member "on" switchRetold])] := by
    refine .cons ⟨rfl, fun _ _ => .inl rfl⟩ (.cons ⟨rfl, fun name hname => ?_⟩ .nil)
    rw [Json.member, Json.textOf?_literal] at hname
    exact .inr ⟨(Option.some.inj hname).symm, hfeatures⟩
  refine .mixed hsaid (Json.mixed_of_perm [Json.member "reachable" (.bool true),
    Json.member "Topic" (.array [])] ?_ (List.reverse_perm [_, _, _, _]))
  exact List.forall_mem_cons.mpr ⟨Json.stranger_member (by decide),
    List.forall_mem_singleton.mpr (Json.stranger_member (by decide))⟩

theorem ofPayload_retold_dimmedLamp :
    ofPayload dimmedLampText = .ok dimmedLamp ∧ ofPayload dimmedLampRetold = .ok dimmedLamp := by
  have haccepted : ofPayload dimmedLampText = .ok dimmedLamp := by decide +kernel
  have hdocument : Json.Document (.object dimmedLampMembers) dimmedLampText :=
    Json.parse?_eq_some_iff.mp (by rfl)
  have hdocument' : Json.Document (.object dimmedLampMembersRetold) dimmedLampRetold :=
    Json.parse?_eq_some_iff.mp (by rfl)
  exact ⟨haccepted,
    (ofPayload_retold haccepted hdocument retold_dimmedLampMembers hdocument').1⟩

end Device
end HomeSync
