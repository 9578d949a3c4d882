import HomeSync.Message
import HomeSync.Proofs.Accessory.Face

/-
What messages do to the values of an accessory.

A report is taken in by the first characteristic of its type.  Where no type occurs
twice that is the only one, so a list of messages acts on each characteristic by
itself: those of the type take the messages in, and all others stay as they are.
-/
namespace HomeSync

namespace Characteristic

/-- Take in the texts of messages, one after the other. -/
def hear (c : Characteristic) (messages : List Message) : Characteristic :=
  messages.foldl (fun c m => c.report m.text) c

theorem hear_append (c : Characteristic) (first later : List Message) :
    c.hear (first ++ later) = (c.hear first).hear later := List.foldl_append

theorem typeCode_hear (c : Characteristic) (messages : List Message) :
    (c.hear messages).typeCode = c.typeCode := by
  induction messages generalizing c with
  | nil => rfl
  | cons m rest ih => exact (ih (c.report m.text)).trans (c.typeCode_report m.text)

/-- A report changes nothing that the next report is judged by. -/
theorem reported?_report (c : Characteristic) (raw raw' : String) :
    (c.report raw).reported? raw' = c.reported? raw' := by
  rw [report]
  cases c.reported? raw <;> rfl

/-- The value is the one that a text reports, if the text is a report that counts. -/
def Shows (c : Characteristic) (raw : String) : Prop := ∀ v, c.reported? raw = some v → c.value = v

theorem shows_report (c : Characteristic) (raw : String) : (c.report raw).Shows raw := by
  intro v hv
  rw [reported?_report] at hv
  rw [report, hv]

theorem shows_hear_of_shows {c : Characteristic} {raw : String} {messages : List Message}
    (hsame : ∀ m ∈ messages, m.text = raw) (h : c.Shows raw) : (c.hear messages).Shows raw := by
  induction messages generalizing c with
  | nil => exact h
  | cons m rest ih =>
    have hm : m.text = raw := hsame m List.mem_cons_self
    refine ih (c := c.report m.text) (fun m' hm' => hsame m' (List.mem_cons_of_mem m hm')) ?_
    rw [hm]
    exact c.shows_report raw

/-- Hearing one text over and over is to show it, whatever was shown before. -/
theorem shows_hear {c : Characteristic} {raw : String} {messages : List Message}
    (hsome : messages ≠ []) (hsame : ∀ m ∈ messages, m.text = raw) :
    (c.hear messages).Shows raw := by
  cases messages with
  | nil => exact absurd rfl hsome
  | cons m rest =>
    have hm : m.text = raw := hsame m List.mem_cons_self
    have hfirst : (c.report m.text).Shows raw := by
      rw [hm]
      exact c.shows_report raw
    exact shows_hear_of_shows (c := c.report m.text)
      (fun m' hm' => hsame m' (List.mem_cons_of_mem m hm')) hfirst

end Characteristic

namespace Accessory

/-- No two characteristics of the accessory are of one type. -/
def Varied (a : Accessory) : Prop := (a.characteristics.map (·.typeCode)).Nodup

theorem varied_blank {a : Accessory} : a.blank.Varied ↔ a.Varied := by
  rw [Varied, Varied, characteristics_blank, List.map_map]
  rfl

theorem changeFirst_eq_map {code : String} {f : Characteristic → Characteristic}
    {l : List Characteristic} (h : (l.map (·.typeCode)).Nodup) :
    changeFirst (·.typeCode == code) f l =
      l.map fun c => if c.typeCode = code then f c else c := by
  induction l with
  | nil => rfl
  | cons c rest ih =>
    obtain ⟨hfresh, hrest⟩ := List.nodup_cons.mp h
    rw [changeFirst, List.map_cons]
    by_cases hc : c.typeCode = code
    · -- the first one is the only one, so the rest is not changed
      have hnone : rest.map (fun c => if c.typeCode = code then f c else c) = rest := by
        refine (List.map_congr_left fun c' hc' => ?_).trans (List.map_id rest)
        have hne : c'.typeCode ≠ code := fun heq =>
          hfresh (List.mem_map.mpr ⟨c', hc', heq.trans hc.symm⟩)
        rw [if_neg hne]
        rfl
      rw [if_pos (beq_iff_eq.mpr hc), if_pos hc, hnone]
    · rw [if_neg (fun heq => hc (beq_iff_eq.mp heq)), if_neg hc, ih hrest]

theorem characteristics_modifyType {a : Accessory} (h : a.Varied) (code : String)
    (f : Characteristic → Characteristic) :
    (a.modifyType code f).characteristics =
      a.characteristics.map fun c => if c.typeCode = code then f c else c := by
  rw [modifyType, characteristics_modify, changeFirst_eq_map h]

/-- Take in reports for the characteristic of a type. -/
def hear (a : Accessory) (code : String) (messages : List Message) : Accessory :=
  messages.foldl (fun a m => a.modifyType code fun c => c.report m.text) a

theorem face_hear {code : String} (hcode : code ≠ TypeCode.reachable) (messages : List Message)
    (a : Accessory) : (a.hear code messages).face = a.face := by
  induction messages generalizing a with
  | nil => rfl
  | cons m rest ih => exact (ih _).trans (face_report hcode m.text a)

theorem varied_of_face {a a' : Accessory} (h : a.Varied) (hface : a'.face = a.face) :
    a'.Varied := by
  have hblank : a'.blank = a.blank := congrArg Prod.fst hface
  rw [← varied_blank, hblank, varied_blank]
  exact h

theorem characteristics_hear {code : String} (hcode : code ≠ TypeCode.reachable)
    (messages : List Message) {a : Accessory} (h : a.Varied) :
    (a.hear code messages).characteristics =
      a.characteristics.map fun c => if c.typeCode = code then c.hear messages else c := by
  induction messages generalizing a with
  | nil =>
    have hsame : ∀ c : Characteristic, (if c.typeCode = code then c.hear [] else c) = c :=
      fun c => ite_self c
    simp only [hsame, List.map_id']
    rfl
  | cons m rest ih =>
    have hvaried : (a.modifyType code fun c => c.report m.text).Varied :=
      varied_of_face h (face_report hcode m.text a)
    show ((a.modifyType code fun c => c.report m.text).hear code rest).characteristics = _
    rw [ih hvaried, characteristics_modifyType h, List.map_map]
    apply List.map_congr_left
    intro c _
    show (if (if c.typeCode = code then c.report m.text else c).typeCode = code then _ else _) = _
    by_cases hc : c.typeCode = code
    · simp only [hc, (c.typeCode_report m.text).trans hc, if_true]
      rfl
    · rw [if_neg hc, if_neg hc, if_neg hc]

/-- One accessory comes out of another one by taking in messages.  For each type of
characteristic it is told which. -/
structure Hears (a : Accessory) (messages : String → List Message) (a' : Accessory) : Prop where
  face : a'.face = a.face
  characteristics :
    a'.characteristics = a.characteristics.map fun c => c.hear (messages c.typeCode)

theorem hears_refl (a : Accessory) : a.Hears (fun _ => []) a :=
  ⟨rfl, (List.map_id _).symm⟩

theorem hears_trans {a a' a'' : Accessory} {messages later : String → List Message}
    (h : a.Hears messages a') (h' : a'.Hears later a'') :
    a.Hears (fun code => messages code ++ later code) a'' := by
  refine ⟨h'.face.trans h.face, ?_⟩
  rw [h'.characteristics, h.characteristics, List.map_map]
  apply List.map_congr_left
  intro c _
  rw [Characteristic.hear_append]
  exact congrArg (fun code => (c.hear (messages c.typeCode)).hear (later code))
    (c.typeCode_hear (messages c.typeCode))

theorem findType?_of_hears {a a' : Accessory} {messages : String → List Message}
    (h : a.Hears messages a') (code : String) :
    a'.findType? code = (a.findType? code).map (·.hear (messages code)) := by
  have htest : (fun c : Characteristic => c.typeCode == code) ∘
      (fun c : Characteristic => c.hear (messages c.typeCode)) = (·.typeCode == code) :=
    funext fun c => congrArg (· == code) (c.typeCode_hear (messages c.typeCode))
  rw [findType?, findType?, h.characteristics, List.find?_map, htest]
  cases hc : a.characteristics.find? (·.typeCode == code) with
  | none => rfl
  | some c =>
    have hcode : c.typeCode = code := by simpa using List.find?_some hc
    rw [Option.map_some, Option.map_some, hcode]

theorem hears_hear {code : String} (hcode : code ≠ TypeCode.reachable) (messages : List Message)
    {a : Accessory} (h : a.Varied) :
    a.Hears (fun code' => if code' = code then messages else []) (a.hear code messages) := by
  refine ⟨face_hear hcode messages a, ?_⟩
  rw [characteristics_hear hcode messages h]
  apply List.map_congr_left
  intro c _
  by_cases hc : c.typeCode = code
  · simp only [hc, if_true]
  · simp only [hc, if_false]
    rfl

end Accessory

namespace Inventory

theorem get?_report (inv : Inventory) (n n' : Nat) (code raw : String) :
    (inv.report n code raw).get? n' =
      if n = n' then (inv.get? n').map (·.modifyType code fun c => c.report raw)
      else inv.get? n' :=
  get?_modify inv n n' _

theorem get?_foldl_report (n n' : Nat) (code : String) (messages : List Message)
    (inv : Inventory) :
    (messages.foldl (fun inv m => inv.report n code m.text) inv).get? n' =
      if n = n' then (inv.get? n').map (·.hear code messages) else inv.get? n' := by
  induction messages generalizing inv with
  | nil =>
    have hsame : (inv.get? n').map (·.hear code []) = inv.get? n' := Option.map_id'
    rw [hsame, ite_self]
    rfl
  | cons m rest ih =>
    rw [List.foldl_cons, ih, get?_report]
    by_cases hn : n = n'
    · rw [if_pos hn, if_pos hn, if_pos hn, Option.map_map]
      rfl
    · rw [if_neg hn, if_neg hn, if_neg hn]

/-- No accessory has two characteristics of one type. -/
def Varied (inv : Inventory) : Prop := ∀ f ∈ inv.faces, f.1.Varied

theorem varied_of_faces {inv inv' : Inventory} (h : inv.Varied) (hfaces : inv'.faces = inv.faces) :
    inv'.Varied := by
  rw [Varied, hfaces]
  exact h

theorem varied_of_get? {inv : Inventory} (h : inv.Varied) {n : Nat} {a : Accessory}
    (ha : inv.get? n = some a) : a.Varied :=
  Accessory.varied_blank.mp (h a.face (List.mem_map_of_mem (List.mem_of_getElem? ha)))

end Inventory
end HomeSync
