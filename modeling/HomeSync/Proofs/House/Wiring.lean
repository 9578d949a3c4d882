import HomeSync.Proofs.Adapter.Wiring
import HomeSync.Proofs.House.Moves

/-
The subscriptions of the adapter are the bindings of the installed accessories.

Devices may share the topics of their features, with each other and with
themselves, and other parties may publish and subscribe in between.  Only when
another party unsubscribes can it cut off a characteristic, so that is the one
thing that is not allowed here.
-/
namespace HomeSync
namespace House

/-- The moves of a house where the adapter is told of any devices and nobody but
the adapter unsubscribes. -/
def Unhindered (_ : House) : Move → Prop
  | .tell (.updated d) => d.Made
  | .tell (.removed _) | .write .. | .start _ => True
  | .operate op => op.Tame
  | .call _ | .follow _ | .handle => False

structure Wired (h : House) : Prop where
  sound : h.hub.Sound
  tame : h.hub.bus.Tame
  wired : h.hub.Wired

theorem wired_of_untouched {h h' : House} (hw : h.Wired) (hsame : Untouched h h')
    (hsound : h'.hub.Sound) (htame : h'.hub.bus.Tame) (hwires : h'.hub.bus.wires = h.hub.bus.wires) :
    h'.Wired := by
  refine ⟨hsound, htame, ?_, ?_⟩
  · rw [hsame.installed]
    exact hw.wired.attached
  · rw [hwires, hsame.installed]
    exact hw.wired.wires

theorem wired_tell {h : House} (hw : h.Wired) {e : Event} (he : h.Unhindered (.tell e)) :
    (h.step (.tell e)).Wired := by
  have ht := Hub.takes_handle h.hub e
  have hattached : ∀ d, e = .updated d → d.Attached := by
    intro d hd
    rw [hd] at he
    exact Device.attached_of_made he
  refine ⟨Hub.sound_of_takes hw.sound ht, ?_, Hub.wired_of_takes hw.wired hattached ht⟩
  intro c hc
  rw [step, Hub.clients_of_takes ht] at hc
  exact hw.tame c hc

/-- The bus after a move from outside, as far as the characteristics hear of it. -/
theorem tame_step {h : House} (hw : h.Wired) {m : Move} (hm : h.Unhindered m) (ho : m.Outside) :
    (h.step m).hub.bus.Tame ∧ (h.step m).hub.bus.wires = h.hub.bus.wires := by
  cases m with
  | operate op =>
    rw [step, (untouched_perform hw.sound.shielded op).2]
    exact Bus.tame_perform hw.tame hm
  | write accessory characteristic v =>
    rw [step]
    cases hwrite : h.write? accessory characteristic v with
    | none => exact ⟨hw.tame, rfl⟩
    | some h' =>
      obtain ⟨n, -, hn⟩ := Option.bind_eq_some_iff.mp hwrite
      rw [Option.getD_some]
      rcases (untouched_writeWhere? hw.sound hn).2 with hbus | ⟨p, hbus⟩
      · rw [hbus]
        exact ⟨hw.tame, rfl⟩
      · rw [hbus]
        exact Bus.tame_perform hw.tame (.publish p)
  | start config =>
    refine ⟨hw.tame, ?_⟩
    show ((h.hub.bus.register _ (.announcements _)).register _ (.departures _)).wires = _
    rw [Bus.wires_register, Bus.wires_register]
    simp [Receiver.isCharacteristic]
  | call c => exact ho.elim
  | follow listing => exact ho.elim
  | handle => exact ho.elim
  | tell e => exact ho.elim

theorem wired_step {h : House} (hw : h.Wired) {m : Move} (hm : h.Unhindered m) :
    (h.step m).Wired := by
  have houtside : m.Outside → (h.step m).Wired := fun ho =>
    wired_of_untouched hw (untouched_step hw.sound ho).1 (untouched_step hw.sound ho).2
      (tame_step hw hm ho).1 (tame_step hw hm ho).2
  cases m with
  | tell e => exact wired_tell hw hm
  | operate op => exact houtside trivial
  | write accessory characteristic v => exact houtside trivial
  | start config => exact houtside trivial
  | call c => exact hm.elim
  | follow listing => exact hm.elim
  | handle => exact hm.elim

theorem wired_create (recording : Bool) (info : Nameplate) :
    (House.create recording info).Wired := by
  refine ⟨sound_create recording info, ?_, ?_, ?_⟩
  · intro c hc
    exact absurd hc (by simp [House.create])
  · intro topic i hfind
    exact absurd hfind (by simp [House.create])
  · exact List.Perm.refl _

/-- The characteristics are subscribed once for each binding of an installed
accessory, under the topic that the feature reports on, and none of them more
than once. -/
theorem subscriptions_are_bindings (recording : Bool) (info : Nameplate) {moves : List Move}
    (hallowed : Allowed Unhindered (House.create recording info) moves) :
    let h := (House.create recording info).run moves
    h.hub.bus.wires.Perm (h.hub.installed.values.flatMap fun i =>
      i.bindings.map fun b => ⟨b.feature.getTopic, .characteristic i.accessory b.typeCode⟩) ∧
    (h.hub.bus.wires.map (·.receiver)).Nodup := by
  intro h
  have hw : h.Wired :=
    run_induct (P := Wired) (fun _ _ hw hm => wired_step hw hm) (wired_create recording info)
      hallowed
  exact ⟨hw.wired.wires, Hub.nodup_receivers hw.sound.orderly hw.wired⟩

/-- A lamp that reports two features on a topic that all lamps share. -/
def sharingLamp (topic : String) : Device :=
  { ((({ topic } : Device).addFeature "on" { getTopic := "lamps" }).addFeature "brightness"
      { getTopic := "lamps" }) with deviceType := "lightbulb" }

theorem made_sharingLamp (topic : String) : (sharingLamp topic).Made :=
  .assign topic "" "" "" "" "lightbulb" none false
    (.addFeature "brightness" _ (.addFeature "on" _ (.fresh topic)))

/-- Of two lamps that share a topic the first one goes. -/
def sharingMoves : List Move :=
  [.tell (.updated (sharingLamp "hall")), .tell (.updated (sharingLamp "attic")), .start {},
    .tell (.removed (sharingLamp "hall"))]

theorem subscriptions_are_bindings_sharing :
    Allowed Unhindered (House.create false {}) sharingMoves ∧
    ((House.create false {}).run sharingMoves).hub.bus.wires.Perm
      [⟨"lamps", .characteristic 1 "25"⟩, ⟨"lamps", .characteristic 1 "8"⟩] := by
  have hallowed : Allowed Unhindered (House.create false {}) sharingMoves :=
    ⟨made_sharingLamp "hall", made_sharingLamp "attic", trivial, trivial, trivial⟩
  refine ⟨hallowed, (subscriptions_are_bindings false {} hallowed).1.trans ?_⟩
  decide +kernel

end House
end HomeSync
