import HomeSync.Proofs.House.Moves

/-
The changes that the adapter takes in over a run.

The adapter shows the devices that come of recording these changes.  While there is
an accessory for a topic, the device on record is the one of the last update for the
topic.
-/
namespace HomeSync

namespace Event

/-- The events update the device of a topic, and no later one of them updates it
again. -/
def LastUpdate (events : List Event) (topic : String) (d : Device) : Prop :=
  d.topic = topic ∧ ∃ before after, events = before ++ .updated d :: after ∧
    ∀ d', .updated d' ∈ after → d'.topic ≠ topic

/-- Without an update the device of a topic stays on record or is struck off. -/
theorem find?_foldl_record_of_not_updated {after : List Event} {topic : String}
    (h : ∀ d', .updated d' ∈ after → d'.topic ≠ topic) (known : SortedMap String Device) :
    (after.foldl record known).find? topic = none ∨
      (after.foldl record known).find? topic = known.find? topic := by
  induction after generalizing known with
  | nil => exact .inr rfl
  | cons e rest ih =>
    have hrest := ih (fun d' hd' => h d' (List.mem_cons_of_mem e hd')) (e.record known)
    rw [List.foldl_cons]
    cases e with
    | updated d =>
      have hne := h d List.mem_cons_self
      have hsame : (record known (.updated d)).find? topic = known.find? topic := by
        rw [record, SortedMap.find?_insert, if_neg hne]
      rwa [hsame] at hrest
    | removed d =>
      rcases hrest with hnone | hsame
      · exact .inl hnone
      · rw [hsame, record, SortedMap.find?_erase]
        by_cases htopic : d.topic = topic
        · exact .inl (if_pos htopic)
        · exact .inr (if_neg htopic)

theorem find?_foldl_record_of_lastUpdate {events : List Event} {topic : String} {d : Device}
    (hlast : LastUpdate events topic d) {known : SortedMap String Device}
    (hsome : ((events.foldl record known).find? topic).isSome) :
    (events.foldl record known).find? topic = some d := by
  obtain ⟨rfl, before, after, rfl, hafter⟩ := hlast
  rw [List.foldl_append, List.foldl_cons] at hsome ⊢
  rcases find?_foldl_record_of_not_updated hafter ((before.foldl record known).insert d.topic d)
    with hnone | hsame
  · rw [record, hnone] at hsome
    exact absurd hsome (by simp)
  · rw [record, hsame, SortedMap.find?_insert_self]

end Event

namespace House

/-- The changes that the adapter takes in over a run, the oldest first. -/
def taken (h : House) : List Move → List Event
  | [] => []
  | m :: rest => (h.told m).toList ++ (h.step m).taken rest

theorem shows_step {h : House} (hs : h.hub.Sound) {known : SortedMap String Device}
    (hshows : h.hub.Shows known) (m : Move) :
    (h.step m).hub.Shows ((h.told m).toList.foldl Event.record known) := by
  rcases hub_step h m with ho | ⟨hnone, hsame⟩ | ⟨e, he, hhandle⟩
  · have hnone : h.told m = none := by
      cases m <;> first | rfl | exact ho.elim
    obtain ⟨huntouched, -⟩ := untouched_step hs ho
    rw [hnone]
    exact Hub.shows_of_faces hshows huntouched.installed huntouched.faces
  · rw [hnone, hsame]
    exact hshows
  · rw [he, hhandle]
    exact Hub.shows_of_takes hs (Hub.takes_handle h.hub e) hshows

theorem shows_run {h : House} (hs : h.hub.Sound) {known : SortedMap String Device}
    (hshows : h.hub.Shows known) (moves : List Move) :
    (h.run moves).hub.Shows ((h.taken moves).foldl Event.record known) := by
  induction moves generalizing h known with
  | nil => exact hshows
  | cons m rest ih =>
    rw [taken, List.foldl_append]
    exact ih (sound_step hs m) (shows_step hs hshows m)

/-- At any time the adapter shows the devices that it was told of. -/
theorem shows_taken (recording : Bool) (info : Nameplate) (moves : List Move) :
    ((House.create recording info).run moves).hub.Shows
      (((House.create recording info).taken moves).foldl Event.record SortedMap.empty) := by
  refine shows_run (sound_create recording info) ⟨fun _ => rfl, fun topic i d hi => ?_⟩ moves
  exact absurd hi (by simp [House.create])

theorem presents_lastUpdate {recording : Bool} {info : Nameplate} {moves : List Move}
    {topic : String} {i : Installed} {d : Device}
    (hi : ((House.create recording info).run moves).hub.installed.find? topic = some i)
    (hlast : Event.LastUpdate ((House.create recording info).taken moves) topic d) :
    ((House.create recording info).run moves).hub.Presents i d := by
  have hshows := shows_taken recording info moves
  refine hshows.presents topic i d hi (Event.find?_foldl_record_of_lastUpdate hlast ?_)
  rw [← hshows.alike, hi]
  rfl

end House
end HomeSync
