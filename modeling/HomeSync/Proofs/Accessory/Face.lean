import HomeSync.Accessory.Inventory

/-
What a change of values leaves alone.

Reports and writes change values and nothing else.  The blank of an accessory is
the accessory without its values; its structure can be read off the blank.  The
reachable flag is a value too, but no report and no write ever touches it, since
only the adapter sets it.  So the face of an accessory, its blank and its flag,
stays the same under everything that happens to it from outside.
-/
namespace HomeSync

/-! ## Characteristics and services -/

namespace Characteristic

/-- The characteristic without its value. -/
def blank (c : Characteristic) : Characteristic := { c with value := c.format.initial }

theorem blank_withValue (c : Characteristic) (v : Value) :
    ({ c with value := v } : Characteristic).blank = c.blank := rfl

theorem blank_report (c : Characteristic) (raw : String) : (c.report raw).blank = c.blank := by
  rw [report]
  split <;> rfl

theorem typeCode_report (c : Characteristic) (raw : String) :
    (c.report raw).typeCode = c.typeCode := by
  rw [report]
  split <;> rfl

theorem sameStructure_blank (a b : Characteristic) :
    a.blank.sameStructure b = a.sameStructure b := rfl

/-- No bound is NaN, so a bound equals itself. -/
def Bounded (c : Characteristic) : Prop :=
  c.min ≠ some .nan ∧ c.max ≠ some .nan ∧ c.step ≠ some .nan

/-- A characteristic has the structure of itself unless a bound is NaN. -/
theorem sameStructure_self {c : Characteristic} (hmin : c.min ≠ some .nan)
    (hmax : c.max ≠ some .nan) (hstep : c.step ≠ some .nan) : c.sameStructure c = true := by
  have hle : ∀ x : Binary64, x ≠ .nan → Binary64.le x x = true := by
    intro x hx
    cases x with
    | nan => exact absurd rfl hx
    | infinite negative => cases negative <;> rfl
    | finite s m e => simp [Binary64.le]
  have hbound : ∀ b : Option Binary64, b ≠ some .nan → sameBound b b = true := by
    intro b hb
    cases b with
    | none => rfl
    | some x =>
      have hx := hle x fun heq => hb (by rw [heq])
      rw [sameBound, Binary64.same, hx, Bool.and_self]
  simp [sameStructure, hbound _ hmin, hbound _ hmax, hbound _ hstep]

end Characteristic

namespace Service

def blank (s : Service) : Service :=
  { s with characteristics := s.characteristics.map Characteristic.blank }

theorem sameStructure_blank (a b : Service) : a.blank.sameStructure b = a.sameStructure b := by
  have hsame : (fun p : Characteristic × Characteristic => p.1.blank.sameStructure p.2) =
      fun p => p.1.sameStructure p.2 :=
    funext fun p => Characteristic.sameStructure_blank p.1 p.2
  rw [sameStructure, blank, List.length_map, List.zip_map_left, List.all_map]
  exact congrArg (fun test => _ && List.all _ test) hsame

end Service

/-! ## Changing the first characteristic that passes a test -/

namespace Accessory

def changeFirst (p : Characteristic → Bool) (f : Characteristic → Characteristic) :
    List Characteristic → List Characteristic
  | [] => []
  | c :: rest => if p c then f c :: rest else c :: changeFirst p f rest

section ChangeFirst

variable {p q : Characteristic → Bool} {f g : Characteristic → Characteristic}

theorem changeFirst_eq_match (l : List Characteristic) :
    changeFirst p f l =
      match l.findIdx? p with
      | some i => l.modify i f
      | none => l := by
  induction l with
  | nil => rfl
  | cons c rest ih =>
    rw [changeFirst, List.findIdx?_cons]
    by_cases hc : p c = true
    · rw [if_pos hc, if_pos hc]
      rfl
    · rw [if_neg hc, if_neg hc, ih]
      cases rest.findIdx? p <;> rfl

theorem changeFirst_append_of_some {l₁ l₂ : List Characteristic} {i : Nat}
    (h : l₁.findIdx? p = some i) : changeFirst p f (l₁ ++ l₂) = changeFirst p f l₁ ++ l₂ := by
  induction l₁ generalizing i with
  | nil => simp at h
  | cons c rest ih =>
    rw [List.cons_append, changeFirst, changeFirst]
    by_cases hc : p c = true
    · rw [if_pos hc, if_pos hc, List.cons_append]
    · rw [List.findIdx?_cons, if_neg hc, Option.map_eq_some_iff] at h
      obtain ⟨j, hj, -⟩ := h
      rw [if_neg hc, if_neg hc, ih hj, List.cons_append]

theorem changeFirst_append_of_none {l₁ l₂ : List Characteristic} (h : l₁.findIdx? p = none) :
    changeFirst p f (l₁ ++ l₂) = l₁ ++ changeFirst p f l₂ := by
  induction l₁ with
  | nil => rfl
  | cons c rest ih =>
    rw [List.findIdx?_cons] at h
    by_cases hc : p c = true
    · rw [if_pos hc] at h
      exact absurd h (by simp)
    · rw [if_neg hc, Option.map_eq_none_iff] at h
      rw [List.cons_append, changeFirst, if_neg hc, ih h, List.cons_append]

theorem find?_changeFirst_self (hp : ∀ c, p (f c) = p c) (l : List Characteristic) :
    (changeFirst p f l).find? p = (l.find? p).map f := by
  induction l with
  | nil => rfl
  | cons c rest ih =>
    rw [changeFirst, List.find?_cons]
    cases hc : p c with
    | true =>
      rw [if_pos rfl, List.find?_cons, hp, hc]
      rfl
    | false =>
      rw [if_neg (by simp), List.find?_cons, hc]
      exact ih

theorem find?_changeFirst_of_not (hq : ∀ c, q (f c) = q c) {l : List Characteristic}
    (h : ∀ c, l.find? p = some c → q c = false) : (changeFirst p f l).find? q = l.find? q := by
  induction l with
  | nil => rfl
  | cons c rest ih =>
    rw [List.find?_cons] at h
    rw [changeFirst]
    cases hc : p c with
    | true =>
      rw [hc] at h
      have hqc := h c rfl
      rw [if_pos rfl, List.find?_cons, List.find?_cons, hq, hqc]
    | false =>
      rw [hc] at h
      rw [if_neg (by simp), List.find?_cons, List.find?_cons, ih h]

theorem changeFirst_congr {l : List Characteristic}
    (h : ∀ c, l.find? p = some c → f c = g c) : changeFirst p f l = changeFirst p g l := by
  induction l with
  | nil => rfl
  | cons c rest ih =>
    rw [List.find?_cons] at h
    rw [changeFirst, changeFirst]
    cases hc : p c with
    | true =>
      rw [hc] at h
      rw [if_pos rfl, if_pos rfl, h c rfl]
    | false =>
      rw [hc] at h
      rw [if_neg (by simp), if_neg (by simp), ih h]

theorem map_blank_changeFirst (hf : ∀ c, (f c).blank = c.blank) (l : List Characteristic) :
    (changeFirst p f l).map Characteristic.blank = l.map Characteristic.blank := by
  induction l with
  | nil => rfl
  | cons c rest ih =>
    rw [changeFirst]
    split
    · rw [List.map_cons, List.map_cons, hf]
    · rw [List.map_cons, List.map_cons, ih]

/-! ## Changing an accessory -/

theorem modifyFirst_cons (s : Service) (rest : List Service) :
    modifyFirst p f (s :: rest) =
      if (s.characteristics.findIdx? p).isSome then
        { s with characteristics := changeFirst p f s.characteristics } :: rest
      else s :: modifyFirst p f rest := by
  rw [modifyFirst, changeFirst_eq_match]
  cases s.characteristics.findIdx? p <;> rfl

theorem characteristics_modify (a : Accessory) :
    (a.modify p f).characteristics = changeFirst p f a.characteristics := by
  obtain ⟨id, category, info, services⟩ := a
  show (modifyFirst p f services).flatMap (·.characteristics) =
    changeFirst p f (services.flatMap (·.characteristics))
  induction services with
  | nil => rfl
  | cons s rest ih =>
    rw [modifyFirst_cons, List.flatMap_cons]
    cases hi : s.characteristics.findIdx? p with
    | some i =>
      rw [if_pos Option.isSome_some, List.flatMap_cons, changeFirst_append_of_some hi]
    | none =>
      rw [if_neg (by simp), List.flatMap_cons, changeFirst_append_of_none hi, ih]

theorem modify_congr {a : Accessory}
    (h : ∀ c, a.characteristics.find? p = some c → f c = g c) : a.modify p f = a.modify p g := by
  obtain ⟨id, category, info, services⟩ := a
  have hservices : modifyFirst p f services = modifyFirst p g services := by
    replace h : ∀ c, (services.flatMap (·.characteristics)).find? p = some c → f c = g c := h
    induction services with
    | nil => rfl
    | cons s rest ih =>
      rw [List.flatMap_cons, List.find?_append] at h
      rw [modifyFirst_cons, modifyFirst_cons]
      -- only the first service with a match is changed
      cases hi : s.characteristics.findIdx? p with
      | some i =>
        have hs : ∀ c, s.characteristics.find? p = some c → f c = g c := by
          intro c hc
          exact h c (by rw [hc, Option.some_or])
        rw [if_pos Option.isSome_some, if_pos Option.isSome_some, changeFirst_congr hs]
      | none =>
        have hnone : s.characteristics.find? p = none := by
          rw [List.find?_eq_none]
          rw [List.findIdx?_eq_none_iff] at hi
          intro c hc
          rw [hi c hc]
          exact Bool.false_ne_true
        rw [if_neg (by simp), if_neg (by simp), ih]
        intro c hc
        exact h c (by rw [hnone, Option.none_or, hc])
  rw [modify, modify, hservices]

end ChangeFirst

/-- The accessory without its values. -/
def blank (a : Accessory) : Accessory := { a with services := a.services.map Service.blank }

theorem characteristics_blank (a : Accessory) :
    a.blank.characteristics = a.characteristics.map Characteristic.blank := by
  rw [characteristics, characteristics, blank, List.flatMap_map, List.map_flatMap]
  rfl

theorem sameStructure_blank (a b : Accessory) : a.blank.sameStructure b = a.sameStructure b := by
  simp only [sameStructure, blank, List.length_map, List.zip_map_left, List.all_map]
  congr 2
  funext x
  exact Service.sameStructure_blank x.1 x.2

theorem sameStructure_congr {a a' : Accessory} (h : a.blank = a'.blank) (b : Accessory) :
    a.sameStructure b = a'.sameStructure b := by
  rw [← sameStructure_blank, h, sameStructure_blank]

theorem blank_modify {p : Characteristic → Bool} {f : Characteristic → Characteristic}
    (hf : ∀ c, (f c).blank = c.blank) (a : Accessory) : (a.modify p f).blank = a.blank := by
  obtain ⟨id, category, info, services⟩ := a
  have hservices : (modifyFirst p f services).map Service.blank = services.map Service.blank := by
    induction services with
    | nil => rfl
    | cons s rest ih =>
      rw [modifyFirst_cons]
      split
      · rw [List.map_cons, List.map_cons, Service.blank, Service.blank]
        dsimp only
        rw [map_blank_changeFirst hf]
      · rw [List.map_cons, List.map_cons, ih]
  rw [blank, blank, modify]
  dsimp only
  rw [hservices]

/-! ## The reachable flag -/

/-- Whether there is a flag, and no controller may write it. -/
structure Flagged (a : Accessory) : Prop where
  found : (a.findType? TypeCode.reachable).isSome
  guarded : ∀ c ∈ a.characteristics, c.typeCode = TypeCode.reachable → c.writable = false

theorem findType?_blank (a : Accessory) (code : String) :
    a.blank.findType? code = (a.findType? code).map Characteristic.blank := by
  rw [findType?, characteristics_blank, List.find?_map]
  rfl

theorem flagged_blank {a : Accessory} : a.blank.Flagged ↔ a.Flagged := by
  constructor
  · rintro ⟨hfound, hguarded⟩
    rw [findType?_blank, Option.isSome_map] at hfound
    refine ⟨hfound, fun c hc hcode => ?_⟩
    refine hguarded c.blank ?_ hcode
    rw [characteristics_blank]
    exact List.mem_map_of_mem hc
  · rintro ⟨hfound, hguarded⟩
    refine ⟨by rw [findType?_blank, Option.isSome_map]; exact hfound, fun c hc hcode => ?_⟩
    rw [characteristics_blank] at hc
    obtain ⟨c₀, hc₀, rfl⟩ := List.mem_map.mp hc
    exact hguarded c₀ hc₀ hcode

/-- Changing a characteristic leaves those of other types alone. -/
theorem findType?_modify_of_ne {p : Characteristic → Bool}
    {f : Characteristic → Characteristic} (hf : ∀ c, (f c).typeCode = c.typeCode)
    {a : Accessory} {code : String}
    (h : ∀ c, a.characteristics.find? p = some c → c.typeCode ≠ code) :
    (a.modify p f).findType? code = a.findType? code := by
  have hq : ∀ c, ((f c).typeCode == code) = (c.typeCode == code) := fun c => by rw [hf]
  rw [findType?, findType?, characteristics_modify]
  rw [find?_changeFirst_of_not hq fun c hc => by simpa using h c hc]

theorem reachable_modify_of_ne {p : Characteristic → Bool}
    {f : Characteristic → Characteristic} (hf : ∀ c, (f c).typeCode = c.typeCode)
    {a : Accessory}
    (h : ∀ c, a.characteristics.find? p = some c → c.typeCode ≠ TypeCode.reachable) :
    (a.modify p f).reachable = a.reachable := by
  rw [reachable, reachable, findType?_modify_of_ne hf h]

theorem blank_setReachable (a : Accessory) (r : Bool) : (a.setReachable r).blank = a.blank :=
  blank_modify (fun c => Characteristic.blank_withValue c (.bool r)) a

theorem findType?_setReachable {code : String} (hcode : code ≠ TypeCode.reachable) (a : Accessory)
    (r : Bool) : (a.setReachable r).findType? code = a.findType? code := by
  refine findType?_modify_of_ne (f := fun c => { c with value := .bool r }) (fun _ => rfl)
    fun c hc => ?_
  have htype : c.typeCode = TypeCode.reachable := by simpa using List.find?_some hc
  rw [htype]
  exact Ne.symm hcode

theorem reachable_setReachable {a : Accessory} (h : a.Flagged) (r : Bool) :
    (a.setReachable r).reachable = r := by
  obtain ⟨c, hc⟩ := Option.isSome_iff_exists.mp h.found
  rw [reachable, setReachable, modifyType, findType?, characteristics_modify,
    find?_changeFirst_self (f := fun c => { c with value := .bool r }) (fun _ => rfl)]
  rw [findType?] at hc
  rw [hc]
  cases r <;> rfl

/-! ## Faces -/

/-- What an accessory shows beside the values of its device. -/
def face (a : Accessory) : Accessory × Bool := (a.blank, a.reachable)

theorem face_setReachable {a : Accessory} (h : a.Flagged) (r : Bool) :
    (a.setReachable r).face = (a.blank, r) := by
  rw [face, blank_setReachable, reachable_setReachable h]

theorem face_report {code : String} (hcode : code ≠ TypeCode.reachable) (raw : String)
    (a : Accessory) : (a.modifyType code fun c => c.report raw).face = a.face := by
  have hreach : (a.modifyType code fun c => c.report raw).reachable = a.reachable := by
    refine reachable_modify_of_ne (fun c => c.typeCode_report raw) fun c hc => ?_
    have : c.typeCode = code := by simpa using List.find?_some hc
    rw [this]
    exact hcode
  rw [face, face, hreach]
  exact congrArg (·, a.reachable) (blank_modify (fun c => c.blank_report raw) a)

/-- A write changes the value of a writable characteristic, which the flag is
not. -/
theorem face_write {a : Accessory} (h : a.Flagged) {p : Characteristic → Bool}
    {c written : Characteristic} {v : Value} (hc : a.characteristics.find? p = some c)
    (hw : c.write? v = some written) : (a.modify p fun _ => written).face = a.face := by
  rw [Characteristic.write?] at hw
  by_cases hwritable : c.writable = true
  · rw [if_pos hwritable, Option.some.injEq] at hw
    have hvalue : a.modify p (fun _ => written) = a.modify p fun c => { c with value := v } := by
      apply modify_congr
      intro c' hc'
      rw [hc, Option.some.injEq] at hc'
      rw [← hc', hw]
    have hne : c.typeCode ≠ TypeCode.reachable := by
      intro hcode
      rw [h.guarded c (List.mem_of_find?_eq_some hc) hcode] at hwritable
      exact Bool.false_ne_true hwritable
    rw [hvalue, face, face, blank_modify (fun c => c.blank_withValue v),
      reachable_modify_of_ne (f := fun c => { c with value := v }) (fun _ => rfl)]
    intro c' hc'
    rw [hc, Option.some.injEq] at hc'
    exact hc' ▸ hne
  · rw [if_neg hwritable] at hw
    exact absurd hw (by simp)

end Accessory

namespace Inventory

def faces (inv : Inventory) : List (Accessory × Bool) := inv.accessories.map Accessory.face

theorem faces_modify {inv : Inventory} {n : Nat} {f : Accessory → Accessory}
    (h : ∀ a, inv.get? n = some a → (f a).face = a.face) : (inv.modify n f).faces = inv.faces := by
  apply List.ext_getElem?
  intro i
  rw [faces, faces, modify, List.getElem?_map, List.getElem?_map, List.getElem?_modify]
  by_cases hi : n = i
  · subst hi
    cases ha : inv.accessories[n]? with
    | none => rfl
    | some a => simp [h a ha]
  · simp [hi]

theorem get?_modify (inv : Inventory) (n n' : Nat) (f : Accessory → Accessory) :
    (inv.modify n f).get? n' = if n = n' then (inv.get? n').map f else inv.get? n' := by
  rw [get?, get?, modify, List.getElem?_modify]
  by_cases hn : n = n'
  · simp only [hn, if_true, Option.map_eq_map]
  · simp only [hn, if_false, Option.map_eq_map, Option.map_id']

theorem modify_congr {inv : Inventory} {n : Nat} {a : Accessory} (ha : inv.get? n = some a)
    {f g : Accessory → Accessory} (h : f a = g a) : inv.modify n f = inv.modify n g := by
  rw [modify, modify]
  congr 1
  apply List.ext_getElem?
  intro i
  rw [List.getElem?_modify, List.getElem?_modify]
  by_cases hi : n = i
  · subst hi
    rw [show inv.accessories[n]? = some a from ha]
    simp only [if_true, Option.map_eq_map, Option.map_some, h]
  · simp only [hi, if_false]

theorem faces_report {code : String} (hcode : code ≠ TypeCode.reachable) (inv : Inventory)
    (n : Nat) (raw : String) : (inv.report n code raw).faces = inv.faces :=
  faces_modify fun a _ => a.face_report hcode raw

theorem get?_of_faces_getElem? {inv : Inventory} {n : Nat} {f : Accessory × Bool}
    (h : inv.faces[n]? = some f) : ∃ a, inv.get? n = some a ∧ a.face = f := by
  rw [faces, List.getElem?_map, Option.map_eq_some_iff] at h
  exact h

theorem faces_getElem?_of_get? {inv : Inventory} {n : Nat} {a : Accessory}
    (h : inv.get? n = some a) : inv.faces[n]? = some a.face := by
  rw [faces, List.getElem?_map, show inv.accessories[n]? = some a from h]
  rfl

/-- Every accessory has a flag that no controller may write. -/
def Flagged (inv : Inventory) : Prop := ∀ f ∈ inv.faces, f.1.Flagged

theorem flagged_of_get? {inv : Inventory} (h : inv.Flagged) {n : Nat} {a : Accessory}
    (ha : inv.get? n = some a) : a.Flagged :=
  Accessory.flagged_blank.mp (h a.face (List.mem_map_of_mem (List.mem_of_getElem? ha)))

theorem next_of_faces {inv inv' : Inventory} (h : inv'.faces = inv.faces) :
    inv'.next = inv.next := by
  have hlength := congrArg List.length h
  simpa [faces, next] using hlength

end Inventory
end HomeSync
