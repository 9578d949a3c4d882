import HomeSync.Proofs.Adapter.Coding
import HomeSync.Proofs.Adapter.Mirror

/-
The device that an installed accessory was built for.

An accessory may stay in place through many updates.  Its bindings, and what a write
to one of its characteristics sets off, are still those of the device that it was
built for, which is an earlier one than the device that it presents now.
-/
namespace HomeSync
namespace Hub

/-- Everything that is installed was built for a device with its topic and with a
given property. -/
def Built (P : Device → Prop) (h : Hub) : Prop :=
  ∀ topic i, h.installed.find? topic = some i → ∃ d, P d ∧ d.topic = topic ∧
    i.bindings = d.bindings ∧ ∃ f, h.inventory.faces[i.accessory]? = some f ∧
      f.1 = d.blueprint.accessory.blank

variable {P : Device → Prop}

theorem built_of_faces {h h' : Hub} (hb : h.Built P) (hinstalled : h'.installed = h.installed)
    (hfaces : h'.inventory.faces = h.inventory.faces) : h'.Built P := by
  rw [Built, hinstalled, hfaces]
  exact hb

theorem built_of_arrival {h h' : Hub} (ho : h.Orderly) (hb : h.Built P) {d : Device} (hd : P d)
    (hinstalled : h'.installed = h.installed.insert d.topic (h.arrival d))
    (hfaces : h'.inventory.faces = h.inventory.faces ++ [d.face]) : h'.Built P := by
  intro topic i hi
  rw [hinstalled] at hi
  rcases SortedMap.find?_insert_eq_some_iff.mp hi with ⟨htopic, rfl⟩ | ⟨-, hold⟩
  · exact ⟨d, hd, htopic, rfl, d.face, face_arrival hfaces, rfl⟩
  · obtain ⟨d₀, hd₀, htopic, hbindings, f, hf, hblank⟩ := hb topic i hold
    exact ⟨d₀, hd₀, htopic, hbindings, f, (face_of_arrival ho hfaces hold).trans hf, hblank⟩

theorem built_keep {h : Hub} (hflagged : h.inventory.Flagged) (hb : h.Built P) (d : Device)
    (i : Installed) : (h.keep d i).Built P := by
  intro topic j hj
  obtain ⟨d₀, hd₀, htopic, hbindings, f, hf, hblank⟩ := hb topic j hj
  rw [faces_keep hflagged, List.getElem?_modify, hf]
  by_cases hsame : i.accessory = j.accessory
  · exact ⟨d₀, hd₀, htopic, hbindings, (f.1, d.reachable), by simp [hsame], hblank⟩
  · exact ⟨d₀, hd₀, htopic, hbindings, f, by simp [hsame], hblank⟩

theorem built_of_takes {h h' : Hub} {e : Event} (hs : h.Sound) (hb : h.Built P)
    (he : ∀ d, e = .updated d → P d) (ht : h.Takes e h') : h'.Built P := by
  cases ht with
  | @install d hnew =>
    exact built_of_arrival hs.orderly hb (he d rfl) (installed_install ..) (faces_install ..)
  | keep hfind hfits => exact built_keep hs.flagged hb _ _
  | @renew d i hfind =>
    exact built_of_arrival hs.orderly hb (he d rfl) (installed_renew ..)
      (faces_renew hs.orderly _ _)
  | ignore hnone => exact hb
  | @teardown d i hfind =>
    intro topic j hj
    rw [installed_teardown] at hj
    rw [faces_teardown hs.orderly]
    exact hb topic j (SortedMap.find?_erase_eq_some_iff.mp hj).2

end Hub

/-- The characteristic of a binding, as long as nothing but values has changed. -/
theorem Accessory.findType?_of_blank {a : Accessory} {d : Device}
    (ha : a.blank = d.blueprint.accessory.blank) {b : Binding} (hb : b ∈ d.bindings) :
    ∃ c, a.findType? b.typeCode = some c ∧ c.writable = b.capability.writable ∧
      c.onWrite = some (.forward b.feature) := by
  have hblank : (a.findType? b.typeCode).map Characteristic.blank =
      some b.characteristic.coded.blank := by
    rw [← findType?_blank, ha, findType?_blank, Device.findType?_blueprint hb, Option.map_some]
  obtain ⟨c, hc, heq⟩ := Option.map_eq_some_iff.mp hblank
  have hwritable : c.writable = b.characteristic.writable :=
    (congrArg Characteristic.writable heq : c.blank.writable = _)
  have honWrite : c.onWrite = b.characteristic.onWrite :=
    (congrArg Characteristic.onWrite heq : c.blank.onWrite = _)
  exact ⟨c, hc, hwritable, honWrite⟩

end HomeSync
