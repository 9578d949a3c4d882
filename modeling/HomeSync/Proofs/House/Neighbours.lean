import HomeSync.Proofs.Adapter.Neighbours
import HomeSync.Proofs.House.Moves

/-
What one device's changes do to the accessories of the other devices.

They stay in place with their structure and their reachable flag.  Their values may
change, though: an accessory that shares a topic with one that goes is told again
what is retained on that topic, and it takes that for news even if it has heard
something else since.
-/
namespace HomeSync
namespace House

theorem varied_step {h : House} (hs : h.hub.Sound) (hvaried : h.hub.inventory.Varied)
    (m : Move) : (h.step m).hub.inventory.Varied :=
  hub_step_keeps (P := fun h' => h'.inventory.Varied) hs
    (fun _ _ hfaces _ => Inventory.varied_of_faces hvaried hfaces)
    fun _ _ _ ht => Hub.varied_of_takes hs hvaried ht

/-- Whatever has happened in a house, a change of one device leaves the accessory of
every other device where it is.  It keeps its face, and each of its characteristics
takes in again what is retained on the topic of its feature, provided that the change
cuts that topic.  Where nothing is retained on such a topic nothing changes at all. -/
theorem neighbour_after_change (recording : Bool) (info : Nameplate) (moves : List Move)
    {m : Move} {e : Event} {topic : String} {i : Installed} :
    let h := (House.create recording info).run moves
    let h' := h.step m
    h.told m = some e → e.device.topic ≠ topic → h.hub.installed.find? topic = some i →
    h'.hub.installed.find? topic = some i ∧
    ∃ a a', h.hub.accessory? topic = some a ∧ h'.hub.accessory? topic = some a' ∧
      a.Hears (h.hub.redelivered (h.hub.cut e) i) a' ∧
      ((∀ b ∈ i.bindings, b.feature.getTopic ∈ h.hub.cut e → h.hub.bus.reports b.feature = []) →
        a'.characteristics = a.characteristics) := by
  intro h h' htold hne hfind
  have hvaried : (House.create recording info).hub.inventory.Varied := fun f hf =>
    absurd hf (by simp [House.create, Inventory.faces])
  obtain ⟨hs, hvaried⟩ : h.hub.Sound ∧ h.hub.inventory.Varied :=
    run_keeps (P := fun h => h.hub.Sound ∧ h.hub.inventory.Varied)
      (fun _ m hboth => ⟨sound_step hboth.1 m, varied_step hboth.1 hboth.2 m⟩) moves
      ⟨sound_create recording info, hvaried⟩
  have hhandle : h'.hub = h.hub.handle e := by
    rcases hub_step h m with ho | ⟨hnone, -⟩ | ⟨e', he', hhandle⟩
    · cases m <;> first | exact ho.elim | exact absurd htold (by simp [told])
    · rw [hnone] at htold
      exact absurd htold (by simp)
    · rw [htold, Option.some.injEq] at he'
      rw [he']
      exact hhandle
  obtain ⟨hstays, a, a', ha, ha', hears⟩ :=
    Hub.stays_of_cutting hs hvaried (Hub.cutting_handle h.hub e) hne hfind
  rw [← hhandle] at hstays ha'
  refine ⟨hstays, a, a', ?_, ?_, hears, fun hquiet => ?_⟩
  · rw [Hub.accessory?, hfind]
    exact ha
  · rw [Hub.accessory?, hstays]
    exact ha'
  · rw [Hub.redelivered_of_quiet hquiet] at hears
    exact hears.characteristics.trans (List.map_id _)

/-- An outlet that reports on a topic it shares with others. -/
def sharingOutlet (topic : String) : Device :=
  { ({ topic } : Device).addFeature "on" { getTopic := "house/power" } with
    deviceType := "outlet" }

/-- Two outlets on one topic hear a retained report and then one that is not
retained. -/
def unevenMoves : List Move :=
  [.operate (.publish ⟨"house/power", Utf8.encode "1", atLeastOnce, true⟩),
    .tell (.updated (sharingOutlet "hall/plug")), .tell (.updated (sharingOutlet "attic/plug")),
    .operate (.publish ⟨"house/power", Utf8.encode "0", atLeastOnce, false⟩)]

/-- The value that the accessory of a topic shows for a type of characteristic. -/
def shown? (h : House) (topic code : String) : Option Value :=
  (h.hub.accessory? topic).bind fun a => (a.findType? code).map (·.value)

theorem run_unevenMoves :
    (House.create false {}).run unevenMoves =
      ((((House.create false {}).hand ⟨"house/power", Utf8.encode "1", atLeastOnce, true⟩).step
        (.tell (.updated (sharingOutlet "hall/plug")))).step
        (.tell (.updated (sharingOutlet "attic/plug")))).hand
          ⟨"house/power", Utf8.encode "0", atLeastOnce, false⟩ := by
  rw [← publish_eq_hand (List.isEmpty_iff.mp (by decide +kernel)), ← publish_eq_hand rfl]
  rfl

theorem neighbour_after_change_uneven :
    let h := (House.create false {}).run unevenMoves
    let gone : Event := .removed (sharingOutlet "hall/plug")
    ∃ (i : Installed) (a a' : Accessory), h.hub.installed.find? "attic/plug" = some i ∧
      (h.step (.tell gone)).hub.accessory? "attic/plug" = some a' ∧
      a.Hears (h.hub.redelivered (h.hub.cut gone) i) a' := by
  intro h gone
  have hinstalled : (h.hub.installed.find? "attic/plug").isSome = true := by
    show (((House.create false {}).run unevenMoves).hub.installed.find? _).isSome = true
    rw [run_unevenMoves]
    decide +kernel
  obtain ⟨i, hi⟩ := Option.isSome_iff_exists.mp hinstalled
  obtain ⟨-, a, a', -, ha', hears, -⟩ := neighbour_after_change false {} unevenMoves
    (m := .tell gone) rfl (by decide) hi
  exact ⟨i, a, a', hi, ha', hears⟩

/-- When one of the outlets goes, the other one goes back to the retained report. -/
theorem teardown_changes_neighbour :
    let h := (House.create false {}).run unevenMoves
    h.shown? "attic/plug" "25" = some (.bool false) ∧
      (h.step (.tell (.removed (sharingOutlet "hall/plug")))).shown? "attic/plug" "25" =
        some (.bool true) := by
  rw [run_unevenMoves]
  decide +kernel

end House
end HomeSync
