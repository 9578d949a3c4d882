import HomeSync.Proofs.Device.Codec

/-
A device by what was done to it.

Decoding metadata replaces all that a device was told before, and every feature that it
keeps is attached to the topic that it has now.  Both need the whole history: a feature may
come from an announcement, may be handed over by itself, and may have belonged to another
device before.  So the edits of a device are listed, and beside them the features as they
were handed over, before attaching filled anything in.  `edited_by_history` tells the device
from the two, and the invariant behind it is `Keeps`.
-/
namespace HomeSync

namespace Feature

/-- A feature as it stands at a device under a name, beside the one that was handed over. -/
structure StandsFor (f given : Feature) (topic key : String) : Prop where
  name : f.name = key
  owner : f.owner = some topic
  getTopic : f.getTopic =
    if given.getTopic = "" then topic ++ "/" ++ key ++ "/get" else given.getTopic
  setTopic : f.setTopic =
    if given.setTopic = "" then topic ++ "/" ++ key ++ "/set" else given.setTopic
  getTopic_ne : f.getTopic ≠ ""
  setTopic_ne : f.setTopic ≠ ""
  bounds : f.min = given.min ∧ f.max = given.max ∧ f.step = given.step

theorem filled_eq {s : String} (tail : String) :
    (if s.isEmpty = true then tail else s) = if s = "" then tail else s := by
  by_cases hs : s = ""
  · rw [if_pos hs, if_pos (by rw [hs]; rfl)]
  · rw [if_neg hs, if_neg (by simpa using hs)]

theorem filled_ne {s head tail : String} (htail : tail ≠ "") :
    (if s = "" then head ++ tail else s) ≠ "" := by
  by_cases hs : s = ""
  · rw [if_pos hs]
    intro hempty
    exact htail (String.append_eq_empty_iff.mp hempty).2
  · rwa [if_neg hs]

theorem getTopic_attach (given : Feature) (topic key : String) :
    (given.attach topic key).getTopic =
      if given.getTopic = "" then topic ++ "/" ++ key ++ "/get" else given.getTopic :=
  filled_eq _

theorem setTopic_attach (given : Feature) (topic key : String) :
    (given.attach topic key).setTopic =
      if given.setTopic = "" then topic ++ "/" ++ key ++ "/set" else given.setTopic :=
  filled_eq _

theorem standsFor_attach (given : Feature) (topic key : String) :
    (given.attach topic key).StandsFor given topic key where
  name := rfl
  owner := rfl
  getTopic := getTopic_attach given topic key
  setTopic := setTopic_attach given topic key
  getTopic_ne := by
    have htail : "/get" ≠ "" := by decide
    rw [getTopic_attach]
    exact filled_ne htail
  setTopic_ne := by
    have htail : "/set" ≠ "" := by decide
    rw [setTopic_attach]
    exact filled_ne htail
  bounds := ⟨rfl, rfl, rfl⟩

end Feature

namespace Device

/-! ## Edits -/

inductive Origin where
  | fresh (topic : String)
  | decoded (payload : Payload)

/-- What may be done to a device whose topic is not assigned. -/
inductive Edit where
  | describe (payload : Payload)
  | attach (name : String) (f : Feature)
  | detach (name : String)
  | assign (name manufacturer model serialNumber deviceType : String)
      (lastWill : Option String) (reachable : Bool)

def Origin.device : Origin → Except DeviceError Device
  | .fresh topic => .ok { topic }
  | .decoded payload => ofPayload payload

def Edit.perform (d : Device) : Edit → Except DeviceError Device
  | .describe payload => d.applyMetadata payload
  | .attach name f => .ok (d.addFeature name f)
  | .detach name => (d.removeFeature name).map Prod.fst
  | .assign name manufacturer model serialNumber deviceType lastWill reachable =>
    .ok { d with name, manufacturer, model, serialNumber, deviceType, lastWill, reachable }

/-- The device after an edit.  An edit that fails leaves it as it is. -/
def after (d : Device) (e : Edit) : Device :=
  match e.perform d with
  | .ok d' => d'
  | .error _ => d

def edited (d : Device) (edits : List Edit) : Device := edits.foldl after d

/-! ## What was handed over -/

/-- The features by name, as they were handed over last. -/
def Origin.hands : Origin → String → Option Feature
  | .fresh _, _ => none
  | .decoded payload, name => (Metadata.decode? payload).bind (·.features.find? name)

def Edit.hands (before : String → Option Feature) : Edit → String → Option Feature
  | .describe payload, name =>
    match Metadata.decode? payload with
    | some m => m.features.find? name
    | none => before name
  | .attach name' f, name => if name' = name then some f else before name
  | .detach name', name => if name' = name then none else before name
  | .assign .., name => before name

def handed (o : Origin) (edits : List Edit) : String → Option Feature :=
  edits.foldl Edit.hands o.hands

/-- The features of a device are those that were handed over, attached to the topic that the
device has now. -/
def Keeps (d : Device) (given : String → Option Feature) : Prop :=
  ∀ name, d.features.find? name = (given name).map fun f => f.attach d.topic name

variable {d : Device} {given : String → Option Feature}

theorem keeps_withMetadata (d : Device) (m : Metadata) :
    (d.withMetadata m).Keeps m.features.find? := by
  intro name
  rw [withMetadata_eq, SortedMap.find?_map]

theorem after_of_decode?_none {payload : Payload} (h : Metadata.decode? payload = none) :
    d.after (.describe payload) = d := by
  rw [after, Edit.perform, applyMetadata, h]

theorem after_of_decode?_some {payload : Payload} {m : Metadata}
    (h : Metadata.decode? payload = some m) :
    d.after (.describe payload) = d.withMetadata m := by
  rw [after, Edit.perform, applyMetadata, h]

theorem after_detach (d : Device) (name : String) :
    d.after (.detach name) = { d with features := d.features.erase name } := by
  rw [after, Edit.perform, removeFeature, getFeature]
  cases hfind : d.features.find? name with
  | some f => rfl
  | none =>
    rw [SortedMap.erase_of_find?_none hfind]
    rfl

/-- No edit breaks the invariant.  A description that cannot be decoded is the one edit that
hands nothing over and changes nothing. -/
theorem keeps_after (h : d.Keeps given) (e : Edit) : (d.after e).Keeps (e.hands given) := by
  intro name
  cases e with
  | describe payload =>
    rw [Edit.hands]
    cases hdecode : Metadata.decode? payload with
    | none =>
      rw [after_of_decode?_none hdecode]
      exact h name
    | some m =>
      rw [after_of_decode?_some hdecode]
      exact keeps_withMetadata d m name
  | attach name' f =>
    show (d.addFeature name' f).features.find? name = _
    rw [addFeature, SortedMap.find?_insert, Edit.hands]
    by_cases hname : name' = name
    · rw [if_pos hname, if_pos hname, hname]
      rfl
    · rw [if_neg hname, if_neg hname]
      exact h name
  | detach name' =>
    rw [after_detach, SortedMap.find?_erase, Edit.hands]
    by_cases hname : name' = name
    · rw [if_pos hname, if_pos hname]
      rfl
    · rw [if_neg hname, if_neg hname]
      exact h name
  | assign => exact h name

theorem keeps_device {o : Origin} (h : o.device = .ok d) : d.Keeps o.hands := by
  cases o with
  | fresh topic =>
    obtain rfl : ({ topic } : Device) = d := Except.ok.inj h
    intro name
    simp [Origin.hands]
  | decoded payload =>
    obtain ⟨m, hdecode, rfl⟩ := applyMetadata_eq_ok_iff.mp h
    intro name
    rw [Origin.hands, hdecode]
    exact keeps_withMetadata _ m name

theorem keeps_edited (h : d.Keeps given) (edits : List Edit) :
    (d.edited edits).Keeps (edits.foldl Edit.hands given) := by
  induction edits generalizing d given with
  | nil => exact h
  | cons e rest ih => exact ih (keeps_after h e)

/-! ## Decoding metadata -/

/-- Of the old device only the topic and the presence have a part in the new one. -/
theorem withMetadata_eq_fresh (d : Device) (m : Metadata) :
    d.withMetadata m =
      { ({ topic := d.topic } : Device).withMetadata m with reachable := d.reachable } := by
  rw [withMetadata_eq, withMetadata_eq]

theorem detach_eq_of_removeFeature {rest : Device} {name : String} {f : Feature}
    (h : d.removeFeature name = .ok (rest, f)) :
    ∃ g, d.features.find? name = some g ∧ f = g.detach := by
  rw [removeFeature, getFeature] at h
  cases hfind : d.features.find? name with
  | none =>
    rw [hfind] at h
    exact absurd h (by simp [Except.map])
  | some g =>
    rw [hfind] at h
    exact ⟨g, rfl, (congrArg Prod.snd (Except.ok.inj h)).symm⟩

/-- Topics that are filled in once stay, wherever the feature is attached next. -/
theorem find?_reattached {f given : Feature} {topic key : String}
    (h : f.StandsFor given topic key) (other : Device) (name : String) :
    ∃ g, (other.addFeature name f.detach).features.find? name = some g ∧
      g.getTopic = f.getTopic ∧ g.setTopic = f.setTopic := by
  have hstands := Feature.standsFor_attach f.detach other.topic name
  refine ⟨f.detach.attach other.topic name, SortedMap.find?_insert_self _ _ _, ?_, ?_⟩
  · rw [hstands.getTopic]
    exact if_neg h.getTopic_ne
  · rw [hstands.setTopic]
    exact if_neg h.setTopic_ne

/-- A device, however it came about, takes over all of a description or nothing.  At any time
its features are those that were handed over last under their names, and they stand for them
at the topic that the device has. -/
theorem edited_by_history {o : Origin} {d₀ : Device} (h : o.device = .ok d₀)
    (edits : List Edit) :
    let d := d₀.edited edits
    (∀ payload,
      (Metadata.decode? payload = none ∧ d.applyMetadata payload = .error .malformedMetadata ∧
        d₀.edited (edits ++ [.describe payload]) = d) ∨
      ∃ m d' fresh, Metadata.decode? payload = some m ∧ d.applyMetadata payload = .ok d' ∧
        d₀.edited (edits ++ [.describe payload]) = d' ∧
        ({ topic := d.topic } : Device).applyMetadata payload = .ok fresh ∧
        d'.topic = (if d.topic = "" then m.topic else d.topic) ∧ d'.reachable = d.reachable ∧
        d' = { fresh with reachable := d.reachable }) ∧
    (∀ name,
      (handed o edits name = none ∧ d.features.find? name = none) ∨
      ∃ given f, handed o edits name = some given ∧ d.features.find? name = some f ∧
        f.StandsFor given d.topic name) ∧
    ∀ name f rest, d.removeFeature name = .ok (rest, f) →
      ∃ g, d.features.find? name = some g ∧ f = g.detach ∧
        ∀ (other : Device) (name' : String), ∃ f',
          (other.addFeature name' f).features.find? name' = some f' ∧
          f'.getTopic = g.getTopic ∧ f'.setTopic = g.setTopic := by
  intro d
  have hkeeps : d.Keeps (handed o edits) := keeps_edited (keeps_device h) edits
  have hstands : ∀ name f, d.features.find? name = some f →
      ∃ given, handed o edits name = some given ∧ f.StandsFor given d.topic name := by
    intro name f hf
    rw [hkeeps name] at hf
    obtain ⟨given, hgiven, rfl⟩ := Option.map_eq_some_iff.mp hf
    exact ⟨given, hgiven, given.standsFor_attach d.topic name⟩
  have hnext : ∀ e, d₀.edited (edits ++ [e]) = d.after e := by
    intro e
    rw [edited, List.foldl_append]
    rfl
  refine ⟨fun payload => ?_, fun name => ?_, fun name f rest hremove => ?_⟩
  · rw [hnext]
    cases hdecode : Metadata.decode? payload with
    | none =>
      refine Or.inl ⟨rfl, ?_, after_of_decode?_none hdecode⟩
      rw [applyMetadata, hdecode]
    | some m =>
      have htopic : d.topic.isEmpty = true ↔ d.topic = "" := String.isEmpty_iff
      refine Or.inr ⟨m, d.withMetadata m, ({ topic := d.topic } : Device).withMetadata m, rfl,
        applyMetadata_eq_ok_iff.mpr ⟨m, hdecode, rfl⟩, after_of_decode?_some hdecode,
        applyMetadata_eq_ok_iff.mpr ⟨m, hdecode, rfl⟩, ?_, ?_, withMetadata_eq_fresh d m⟩
      · rw [withMetadata_topic]
        simp only [htopic]
      · rw [withMetadata_eq]
  · cases hfind : d.features.find? name with
    | none =>
      have hnone := hkeeps name
      rw [hfind, eq_comm, Option.map_eq_none_iff] at hnone
      exact Or.inl ⟨hnone, rfl⟩
    | some f =>
      obtain ⟨given, hgiven, hf⟩ := hstands name f hfind
      exact Or.inr ⟨given, f, hgiven, rfl, hf⟩
  · obtain ⟨g, hg, rfl⟩ := detach_eq_of_removeFeature hremove
    obtain ⟨given, -, hgiven⟩ := hstands name g hg
    refine ⟨g, hg, rfl, fun other name' => ?_⟩
    exact find?_reattached hgiven other name'

/-- A device that gets its topic from an announcement, after it had another feature. -/
def lateEdits : List Edit :=
  [.attach "on" { getTopic := "hall/power", name := "old", owner := some "attic/lamp" },
    .describe (Utf8.encode "\x7b"), .assign "" "" "" "" "lightbulb" (some "w") true,
    .describe (Utf8.encode "\x7b\"topic\":\"hall/lamp\",\"feature\":\x7b\"on\":\x7b\x7d\x7d\x7d"),
    .detach "hue"]

theorem edited_by_history_late :
    (Origin.fresh "").device = .ok { topic := "" } ∧
      (({ topic := "" } : Device).edited lateEdits).topic = "hall/lamp" ∧
      ∃ given f, handed (.fresh "") lateEdits "on" = some given ∧
        (({ topic := "" } : Device).edited lateEdits).features.find? "on" = some f ∧
        f.StandsFor given "hall/lamp" "on" := by
  have htopic : (({ topic := "" } : Device).edited lateEdits).topic = "hall/lamp" := by
    decide +kernel
  have hsome : (handed (.fresh "") lateEdits "on").isSome = true := by decide +kernel
  have hname := (edited_by_history (o := .fresh "") rfl lateEdits).2.1 "on"
  rw [htopic] at hname
  refine ⟨rfl, htopic, hname.resolve_left fun h => ?_⟩
  rw [h.1] at hsome
  exact Bool.false_ne_true hsome

end Device
end HomeSync
