import Mathlib.Data.List.Basic
import Mathlib.Data.List.Induction
import Mathlib.Data.Nat.Digits.Defs
import HomeSync.Accessory.Basic

/-
The ids of services and characteristics.

A type code in hexadecimal digits gives its number above the base.  The slots without such
a code are counted, a service before its characteristics, so their ids depend on the codes
in front of them and on nothing else.  Since services are only ever appended, no slot gets
another id later, and a slot that was held back gets the id that it would have had.
-/
namespace HomeSync

/-! ## Codes of hexadecimal digits -/

namespace Hex

/-- The digits in the order of their values, in lower case. -/
def digits : List Char := "0123456789abcdef".toList

theorem digit?_eq (c : Char) :
    digit? c = if c.toLower ∈ digits then some (digits.idxOf c.toLower) else none := by
  have hascii : ∀ n < 128, digit? (Char.ofNat n) = if (Char.ofNat n).toLower ∈ digits then
      some (digits.idxOf (Char.ofNat n).toLower) else none := by decide +kernel
  by_cases hc : c.toNat < 128
  · have := hascii c.toNat hc
    rwa [Char.ofNat_toNat] at this
  · have hsame : c.toLower = c := by
      apply dif_neg
      rintro ⟨-, hz⟩
      exact hc (Nat.lt_of_le_of_lt (UInt32.le_iff_toNat_le.mp hz) (by decide))
    have hall : (digits.all fun d => d.toNat < 128) = true := by decide
    have hnone : ∀ d ∈ digits, d.toNat < 128 := fun d hd =>
      of_decide_eq_true (List.all_eq_true.mp hall d hd)
    have hlast : ∀ d : Char, d.toNat < 128 → ¬ c ≤ d := fun d hd hle =>
      hc (Nat.lt_of_le_of_lt (UInt32.le_iff_toNat_le.mp hle) hd)
    rw [hsame, if_neg fun hmem => hc (hnone c hmem), digit?,
      if_neg fun h => hlast '9' (by decide) h.2, if_neg fun h => hlast 'f' (by decide) h.2,
      if_neg fun h => hlast 'F' (by decide) h.2]

/-- Digits are read as the number that they write, the last one counting least. -/
theorem value?_eq_some_iff {cs : List Char} {n : Nat} :
    value? cs = some n ↔ (∀ c ∈ cs, c.toLower ∈ digits) ∧
      Nat.ofDigits 16 (cs.reverse.map fun c => digits.idxOf c.toLower) = n := by
  induction cs using List.reverseRecOn generalizing n with
  | nil => simp [value?]
  | append_singleton cs c ih =>
    have hlast : value? (cs ++ [c]) = (value? cs).bind fun k => (digit? c).map (k * 16 + ·) := by
      rw [value?, List.foldlM_append]
      cases hcs : cs.foldlM (fun n c => (digit? c).map (n * 16 + ·)) 0 with
      | none => simp [value?, hcs]
      | some k => simp [value?, hcs]
    rw [hlast, digit?_eq, Option.bind_eq_some_iff, List.reverse_append, List.reverse_singleton,
      List.singleton_append, List.map_cons, Nat.ofDigits_cons]
    simp only [List.forall_mem_append, List.forall_mem_singleton, ih]
    by_cases hc : c.toLower ∈ digits
    · simp only [hc, if_true, and_true, Option.map_some, Option.some.injEq]
      constructor
      · rintro ⟨k, ⟨hcs, rfl⟩, hn⟩
        exact ⟨hcs, by omega⟩
      · rintro ⟨hcs, hn⟩
        exact ⟨_, ⟨hcs, rfl⟩, by omega⟩
    · simp [hc]

end Hex

namespace Identity

/-- A type code writes a number: it has one to sixteen hexadecimal digits, in whatever
case, and the number leaves room for the base within sixty-four bits. -/
structure Codes (code : String) (x : Nat) : Prop where
  nonempty : code ≠ ""
  digits : ∀ c ∈ code.toList, c.toLower ∈ Hex.digits
  short : code.length ≤ 16
  value : Nat.ofDigits 16 (code.toList.reverse.map fun c => Hex.digits.idxOf c.toLower) = x
  fits : x < 2 ^ 64 - 2 ^ 32

theorem Codes.unique {code : String} {x y : Nat} (hx : Codes code x) (hy : Codes code y) : x = y :=
  hx.value.symm.trans hy.value

theorem typeId?_eq_some_iff {code : String} {id : Nat} :
    typeId? code = some id ↔ ∃ x, Codes code x ∧ id = x + 2 ^ 32 := by
  have hbase : typeBase = 2 ^ 32 := rfl
  have hsize : UInt64.size = 2 ^ 64 := rfl
  rw [typeId?]
  split
  · rename_i hempty
    refine ⟨fun h => absurd h (by simp), ?_⟩
    rintro ⟨x, hx, -⟩
    exact absurd (String.isEmpty_iff.mp hempty) hx.nonempty
  · rename_i hne
    cases hvalue : Hex.value? code.toList with
    | none =>
      refine ⟨fun h => absurd h (by simp), ?_⟩
      rintro ⟨x, hx, -⟩
      rw [Hex.value?_eq_some_iff.mpr ⟨hx.digits, hx.value⟩] at hvalue
      exact absurd hvalue (by simp)
    | some n =>
      obtain ⟨hdigits, hn⟩ := Hex.value?_eq_some_iff.mp hvalue
      dsimp only
      rw [Option.ite_none_right_eq_some, Option.some.injEq]
      constructor
      · rintro ⟨⟨hshort, hfits⟩, rfl⟩
        refine ⟨n, ⟨fun h => hne (String.isEmpty_iff.mpr h), hdigits, hshort, hn, ?_⟩, ?_⟩
        · omega
        · rw [hbase]
      · rintro ⟨x, hx, rfl⟩
        obtain rfl : n = x := hn.symm.trans hx.value
        have := hx.fits
        exact ⟨⟨hx.short, by omega⟩, by rw [hbase]⟩

/-- Whether a type code has an id of its own, so that its slot is not counted. -/
def Decodes (code : String) : Prop := ∃ x, Codes code x

instance (code : String) : Decidable (Decodes code) :=
  decidable_of_iff ((typeId? code).isSome = true) <| by
    rw [Option.isSome_iff_exists]
    simp only [typeId?_eq_some_iff, Decodes]
    exact ⟨fun ⟨_, x, hx, _⟩ => ⟨x, hx⟩, fun ⟨x, hx⟩ => ⟨_, x, hx, rfl⟩⟩

theorem typeId?_of_codes {code : String} {x : Nat} (h : Codes code x) :
    typeId? code = some (x + 2 ^ 32) := typeId?_eq_some_iff.mpr ⟨x, h, rfl⟩

theorem typeId?_of_not_decodes {code : String} (h : ¬ Decodes code) : typeId? code = none := by
  rw [Option.eq_none_iff_forall_ne_some]
  intro id hid
  obtain ⟨x, hx, -⟩ := typeId?_eq_some_iff.mp hid
  exact h ⟨x, hx⟩

end Identity

open Identity

/-! ## Slots -/

/-- A place for an id: a service, or a characteristic. -/
structure Slot where
  code : String
  id : Nat
  /-- Whether the slot keeps its id when ids are given. -/
  held : Bool

namespace Slot

def label (s : Slot) : String × Nat := (s.code, s.id)

def numbered (s : Slot) (id : Nat) : Slot := if s.held then s else { s with id }

def free (s : Slot) : Slot := { s with held := false }

end Slot

def Characteristic.slot (c : Characteristic) : Slot := ⟨c.typeCode, c.id, c.held⟩

namespace Service

/-- The service and then its characteristics. -/
def slots (s : Service) : List Slot :=
  ⟨s.typeCode, s.id, false⟩ :: s.characteristics.map Characteristic.slot

/-- The service with no characteristic held. -/
def free (s : Service) : Service :=
  { s with characteristics := s.characteristics.map fun c => { c with held := false } }

end Service

namespace Accessory

def slots (a : Accessory) : List Slot := a.services.flatMap Service.slots

def free (a : Accessory) : Accessory := { a with services := a.services.map Service.free }

/-- No characteristic is held elsewhere. -/
def Free (a : Accessory) : Prop := ∀ s ∈ a.slots, s.held = false

/-- Give ids to slots one after the other, the first counted one getting `next`. -/
def number (next : Nat) : List Slot → List Slot
  | [] => []
  | s :: rest => s.numbered (slotId next s.code).1 :: number (slotId next s.code).2 rest

/-- Codes with the ids that their slots get where none is held. -/
def labels (next : Nat) : List String → List (String × Nat)
  | [] => []
  | code :: rest => (code, (slotId next code).1) :: labels (slotId next code).2 rest

/-- The running number behind slots with these codes. -/
def codesNext (next : Nat) (codes : List String) : Nat :=
  codes.foldl (fun n code => (slotId n code).2) next

theorem slotId_of_codes {code : String} {x : Nat} (h : Codes code x) (next : Nat) :
    slotId next code = (x + 2 ^ 32, next) := by
  rw [slotId, typeId?_of_codes h]

theorem slotId_of_not_decodes {code : String} (h : ¬ Decodes code) (next : Nat) :
    slotId next code = (next, next + 1) := by
  rw [slotId, typeId?_of_not_decodes h]

theorem number_append (next : Nat) (l l' : List Slot) :
    number next (l ++ l') = number next l ++ number (codesNext next (l.map Slot.code)) l' := by
  induction l generalizing next with
  | nil => rfl
  | cons s rest ih =>
    rw [List.cons_append, number, ih, number]
    rfl

theorem labels_append (next : Nat) (l l' : List String) :
    labels next (l ++ l') = labels next l ++ labels (codesNext next l) l' := by
  induction l generalizing next with
  | nil => rfl
  | cons code rest ih =>
    rw [List.cons_append, labels, ih, labels]
    rfl

theorem length_labels (next : Nat) (l : List String) : (labels next l).length = l.length := by
  induction l generalizing next with
  | nil => rfl
  | cons code rest ih => rw [labels, List.length_cons, ih, List.length_cons]

/-! ## The numbering goes through the slots -/

theorem slots_numberCharacteristics (next : Nat) (l : List Characteristic) :
    (numberCharacteristics next l).1.map Characteristic.slot =
        number next (l.map Characteristic.slot) ∧
      (numberCharacteristics next l).2 = codesNext next (l.map (·.typeCode)) := by
  induction l generalizing next with
  | nil => exact ⟨rfl, rfl⟩
  | cons c rest ih =>
    obtain ⟨hslots, hnext⟩ := ih (slotId next c.typeCode).2
    have hfirst : ∀ id, (c.numbered id).slot = c.slot.numbered id := by
      intro id
      rw [Characteristic.numbered, Slot.numbered]
      split
      · exact (if_pos ‹_›).symm
      · exact (if_neg ‹_›).symm
    refine ⟨?_, hnext⟩
    rw [numberCharacteristics, List.map_cons, hslots, hfirst]
    rfl

theorem slots_numberServices (next : Nat) (l : List Service) :
    (numberServices next l).flatMap Service.slots = number next (l.flatMap Service.slots) := by
  induction l generalizing next with
  | nil => rfl
  | cons s rest ih =>
    obtain ⟨hslots, hnext⟩ :=
      slots_numberCharacteristics (slotId next s.typeCode).2 s.characteristics
    have hcodes : (s.slots.map Slot.code) = s.typeCode :: s.characteristics.map (·.typeCode) := by
      rw [Service.slots, List.map_cons, List.map_map]
      rfl
    rw [numberServices, List.flatMap_cons, List.flatMap_cons, number_append, hcodes, ih, hnext]
    congr 1
    rw [Service.slots, hslots]
    rfl

theorem slots_assignIds (a : Accessory) : a.assignIds.slots = number 1 a.slots :=
  slots_numberServices 1 a.services

theorem slots_addService (a : Accessory) (s : Service) :
    (a.addService s).slots = number 1 (a.slots ++ s.slots) := by
  rw [addService, slots_assignIds, slots, List.flatMap_append, List.flatMap_singleton]
  rfl

/-! ## The ids of codes -/

theorem id_of_codes {next : Nat} {codes : List String} {e : String × Nat}
    (he : e ∈ labels next codes) {x : Nat} (hx : Codes e.1 x) : e.2 = x + 2 ^ 32 := by
  induction codes generalizing next with
  | nil => exact absurd he List.not_mem_nil
  | cons code rest ih =>
    rcases List.mem_cons.mp he with rfl | he
    · rw [slotId_of_codes hx]
    · exact ih he

/-- The slots that are counted get the numbers from the first one on. -/
theorem ids_of_counted (next : Nat) (codes : List String) :
    ((labels next codes).filter fun e => ¬ Decodes e.1).map Prod.snd =
      List.range' next (codes.countP fun code => ¬ Decodes code) := by
  induction codes generalizing next with
  | nil => rfl
  | cons code rest ih =>
    rw [labels, List.filter_cons, List.countP_cons]
    by_cases hcode : Decodes code
    · obtain ⟨x, hx⟩ := hcode
      have hdecodes : Decodes code := ⟨x, hx⟩
      rw [slotId_of_codes hx]
      simpa [hdecodes] using ih next
    · rw [slotId_of_not_decodes hcode]
      simpa [hcode, List.range'_succ] using ih (next + 1)

theorem id_of_counted {next : Nat} {codes : List String} {e : String × Nat}
    (he : e ∈ labels next codes) (hcounted : ¬ Decodes e.1) :
    next ≤ e.2 ∧ e.2 < next + codes.countP fun code => ¬ Decodes code := by
  have hmem : e.2 ∈ ((labels next codes).filter fun e => ¬ Decodes e.1).map Prod.snd :=
    List.mem_map_of_mem (List.mem_filter.mpr ⟨he, by simpa using hcounted⟩)
  rw [ids_of_counted] at hmem
  exact List.mem_range'_1.mp hmem

/-- Where the counted slots stay below the base, an id is shared by slots whose codes write
the same number and by no others. -/
theorem shared_ids {next : Nat} {codes : List String}
    (hfew : next + codes.countP (fun code => ¬ Decodes code) ≤ 2 ^ 32) :
    (labels next codes).Pairwise fun e e' =>
      e.2 = e'.2 ↔ ∃ x, Codes e.1 x ∧ Codes e'.1 x := by
  induction codes generalizing next with
  | nil => exact List.Pairwise.nil
  | cons code rest ih =>
    rw [List.countP_cons] at hfew
    rw [labels]
    by_cases hcode : Decodes code
    · obtain ⟨x, hx⟩ := hcode
      rw [slotId_of_codes hx]
      refine List.pairwise_cons.mpr ⟨fun e he => ?_, ih (by omega)⟩
      by_cases hdecodes : Decodes e.1
      · obtain ⟨y, hy⟩ := hdecodes
        rw [id_of_codes he hy, Nat.add_right_cancel_iff]
        constructor
        · rintro rfl
          exact ⟨x, hx, hy⟩
        · rintro ⟨z, hxz, hyz⟩
          exact (hx.unique hxz).trans (hyz.unique hy)
      · have hlow := id_of_counted he hdecodes
        refine iff_of_false (by dsimp only; omega) ?_
        rintro ⟨y, -, hy⟩
        exact hdecodes ⟨y, hy⟩
    · rw [slotId_of_not_decodes hcode]
      rw [if_pos (by simpa using hcode)] at hfew
      refine List.pairwise_cons.mpr ⟨fun e he => iff_of_false ?_ ?_, ih (by omega)⟩
      · by_cases hdecodes : Decodes e.1
        · obtain ⟨y, hy⟩ := hdecodes
          have := id_of_codes he hy
          dsimp only
          omega
        · have := id_of_counted he hdecodes
          dsimp only
          omega
      · rintro ⟨y, hy, -⟩
        exact hcode ⟨y, hy⟩

/-! ## Assignments -/

theorem codes_number (next : Nat) (l : List Slot) :
    (number next l).map Slot.code = l.map Slot.code := by
  induction l generalizing next with
  | nil => rfl
  | cons s rest ih =>
    have hcode : ∀ id, (s.numbered id).code = s.code := by
      intro id
      rw [Slot.numbered]
      split <;> rfl
    rw [number, List.map_cons, List.map_cons, ih, hcode]

/-- A slot that is held keeps its label, and any other one gets the one of its place. -/
theorem getElem?_number (next : Nat) (l : List Slot) (i : Nat) :
    ((number next l)[i]?).map Slot.label = (l[i]?).bind fun s =>
      if s.held then some s.label else (labels next (l.map Slot.code))[i]? := by
  induction l generalizing next i with
  | nil => rfl
  | cons s rest ih =>
    cases i with
    | zero =>
      rw [number, List.map_cons, labels, List.getElem?_cons_zero, List.getElem?_cons_zero,
        List.getElem?_cons_zero, Slot.numbered]
      split
      · rename_i hheld
        simp [hheld]
      · rename_i hheld
        simp [hheld, Slot.label]
    | succ i => exact ih (slotId next s.code).2 i

theorem labels_number {next : Nat} {l : List Slot} (hfree : ∀ s ∈ l, s.held = false) :
    (number next l).map Slot.label = labels next (l.map Slot.code) := by
  induction l generalizing next with
  | nil => rfl
  | cons s rest ih =>
    have hs : ∀ id, (s.numbered id).label = (s.code, id) := fun id => by
      rw [Slot.numbered, hfree s List.mem_cons_self, if_neg Bool.false_ne_true]
      rfl
    rw [number, List.map_cons, hs, ih fun s' hs' => hfree s' (List.mem_cons_of_mem s hs')]
    rfl

/-! ## Accessories that grow -/

/-- What an accessory can become while services are added to it and ids are given.  In between,
values may change and characteristics may be held or let go of. -/
inductive Becomes (a : Accessory) : List Service → Accessory → Prop
  | start : Becomes a [] a
  | add {added : List Service} {b : Accessory} (s : Service) :
      Becomes a added b → Becomes a (added ++ [s]) (b.addService s)
  | assign {added : List Service} {b : Accessory} :
      Becomes a added b → Becomes a added b.assignIds
  | change {added : List Service} {b b' : Accessory} :
      b'.slots.map Slot.label = b.slots.map Slot.label → Becomes a added b → Becomes a added b'

def typeCodes (a : Accessory) : List String := a.slots.map Slot.code

section Becomes

variable {a b : Accessory} {added : List Service}

theorem codes_of_becomes (h : a.Becomes added b) :
    b.typeCodes = a.typeCodes ++ added.flatMap fun s => s.slots.map Slot.code := by
  induction h with
  | start => rw [List.flatMap_nil, List.append_nil]
  | add s h ih =>
    rw [typeCodes, slots_addService, codes_number, List.map_append, ← typeCodes, ih,
      List.flatMap_append, List.flatMap_singleton, List.append_assoc]
  | assign h ih =>
    rw [typeCodes, slots_assignIds, codes_number, ← typeCodes, ih]
  | @change added b b' hsame h ih =>
    have hcodes := congrArg (List.map Prod.fst) hsame
    rw [List.map_map, List.map_map] at hcodes
    exact hcodes.trans ih

/-- A slot that has the id of its code and place keeps it when ids are given again, whatever
slots have come behind it. -/
theorem label_number {codes more : List String} {l : List Slot} {i : Nat} {e : String × Nat}
    (hcodes : l.map Slot.code = codes ++ more) (he : (labels 1 codes)[i]? = some e)
    (hl : (l[i]?).map Slot.label = some e) : ((number 1 l)[i]?).map Slot.label = some e := by
  have hlength : i < (labels 1 codes).length := (List.getElem?_eq_some_iff.mp he).1
  obtain ⟨s, hs, hlabel⟩ := Option.map_eq_some_iff.mp hl
  rw [getElem?_number, hs, Option.bind_some, hlabel, hcodes, labels_append,
    List.getElem?_append_left hlength, he, ite_self]

theorem label_of_becomes (h : a.assignIds.Becomes added b) {i : Nat} {s : Slot}
    (hs : a.slots[i]? = some s) (hfree : s.held = false) :
    (b.slots[i]?).map Slot.label = (labels 1 a.typeCodes)[i]? := by
  have hlength : i < (labels 1 a.typeCodes).length := by
    rw [length_labels, typeCodes, List.length_map]
    exact (List.getElem?_eq_some_iff.mp hs).1
  obtain ⟨e, he⟩ : ∃ e, (labels 1 a.typeCodes)[i]? = some e :=
    ⟨_, List.getElem?_eq_getElem hlength⟩
  have hassigned : a.assignIds.typeCodes = a.typeCodes := by
    rw [typeCodes, slots_assignIds, codes_number, typeCodes]
  have hb : ∀ {added b}, a.assignIds.Becomes added b →
      ∃ more, b.slots.map Slot.code = a.typeCodes ++ more :=
    fun h => ⟨_, (codes_of_becomes h).trans (by rw [hassigned])⟩
  rw [he]
  induction h with
  | start =>
    rw [slots_assignIds, getElem?_number, hs, Option.bind_some, hfree, if_neg Bool.false_ne_true]
    exact he
  | @add added b s' h ih =>
    obtain ⟨more, hmore⟩ := hb h
    have hplace : i < b.slots.length := by
      have hpart := congrArg List.length hmore
      rw [List.length_map, List.length_append] at hpart
      rw [length_labels] at hlength
      omega
    have hcodes : (b.slots ++ s'.slots).map Slot.code =
        a.typeCodes ++ (more ++ s'.slots.map Slot.code) := by
      rw [List.map_append, hmore, List.append_assoc]
    rw [slots_addService]
    refine label_number hcodes he ?_
    rw [List.getElem?_append_left hplace]
    exact ih
  | assign h ih =>
    obtain ⟨more, hmore⟩ := hb h
    rw [slots_assignIds]
    exact label_number hmore he ih
  | @change added b b' hsame h ih =>
    rw [← List.getElem?_map, hsame, List.getElem?_map]
    exact ih

end Becomes

/-! ## Letting go -/

theorem free_number {l : List Slot} (hfree : ∀ s ∈ l, s.held = false) (next : Nat) :
    ∀ s ∈ number next l, s.held = false := by
  induction l generalizing next with
  | nil => exact hfree
  | cons s rest ih =>
    have hs := hfree s List.mem_cons_self
    intro t ht
    rcases List.mem_cons.mp ht with rfl | ht
    · rw [Slot.numbered, hs, if_neg Bool.false_ne_true]
    · exact ih (fun s' hs' => hfree s' (List.mem_cons_of_mem s hs')) _ t ht

theorem slots_service_free (s : Service) : s.free.slots = s.slots.map Slot.free := by
  rw [Service.slots, Service.slots, List.map_cons, Service.free, List.map_map, List.map_map]
  rfl

theorem slots_free (a : Accessory) : a.free.slots = a.slots.map Slot.free := by
  rw [slots, slots, free, List.flatMap_map, List.map_flatMap]
  exact List.flatMap_congr fun s _ => slots_service_free s

theorem held_of_mem_map_free {l : List Slot} : ∀ s ∈ l.map Slot.free, s.held = false := by
  intro s hs
  obtain ⟨s₀, -, rfl⟩ := List.mem_map.mp hs
  rfl

/-- Once everything is let go of, all slots have the ids of their codes and places. -/
theorem labels_release (a : Accessory) : a.release.slots.map Slot.label = labels 1 a.typeCodes := by
  have hrelease : a.release.slots = number 1 a.free.slots := slots_assignIds a.free
  rw [hrelease, slots_free, labels_number held_of_mem_map_free, List.map_map]
  rfl

/-- Where nothing is ever held, the accessory has the codes that it has anyway. -/
theorem undisturbed (a : Accessory) (added : List Service) :
    ((added.map Service.free).foldl addService a.free).Free ∧
      ((added.map Service.free).foldl addService a.free).typeCodes =
        a.typeCodes ++ added.flatMap fun s => s.slots.map Slot.code := by
  have hcodes : ∀ l : List Slot, (l.map Slot.free).map Slot.code = l.map Slot.code := by
    intro l
    rw [List.map_map]
    rfl
  induction added using List.reverseRecOn with
  | nil =>
    refine ⟨fun s hs => ?_, ?_⟩
    · rw [List.map_nil, List.foldl_nil, slots_free] at hs
      exact held_of_mem_map_free s hs
    · rw [List.map_nil, List.foldl_nil, typeCodes, slots_free, hcodes, List.flatMap_nil,
        List.append_nil]
      rfl
  | append_singleton rest s ih =>
    obtain ⟨hfree, hrest⟩ := ih
    rw [List.map_append, List.foldl_append, List.map_singleton, List.foldl_cons, List.foldl_nil]
    refine ⟨fun t ht => ?_, ?_⟩
    · rw [slots_addService] at ht
      refine free_number (fun t ht => ?_) 1 t ht
      rcases List.mem_append.mp ht with ht | ht
      · exact hfree t ht
      · rw [slots_service_free] at ht
        exact held_of_mem_map_free t ht
    · rw [typeCodes, slots_addService, codes_number, List.map_append, ← typeCodes, hrest,
        slots_service_free, hcodes, List.flatMap_append, List.flatMap_singleton, List.append_assoc]

/-- Giving ids to an accessory of which nothing is held: a slot whose code writes a number
gets this number above the base, and the other slots get the numbers from one on, in their
order.  As long as these stay below the base, slots share an id exactly if their codes write
the same number.  Whatever is held: a slot that has got its id keeps it while services are
added, and once everything is let go of, all ids are those of an accessory with the same
services of which nothing was ever held. -/
theorem ids_by_code (a : Accessory) :
    (a.Free →
      a.assignIds.typeCodes = a.typeCodes ∧
      (∀ s ∈ a.assignIds.slots, ∀ x, Codes s.code x → s.id = x + 2 ^ 32) ∧
      (a.assignIds.slots.filter fun s => ¬ Decodes s.code).map Slot.id =
        List.range' 1 (a.typeCodes.countP fun code => ¬ Decodes code) ∧
      (a.typeCodes.countP (fun code => ¬ Decodes code) < 2 ^ 32 →
        a.assignIds.slots.Pairwise fun s t =>
          s.id = t.id ↔ ∃ x, Codes s.code x ∧ Codes t.code x)) ∧
    (∀ added b, a.assignIds.Becomes added b → ∀ (i : Nat) s, a.slots[i]? = some s →
      s.held = false → (b.slots[i]?).map Slot.label = (a.assignIds.slots[i]?).map Slot.label) ∧
    ∀ added b, a.Becomes added b →
      b.release.slots.map Slot.label =
        ((added.map Service.free).foldl addService a.free).assignIds.slots.map Slot.label := by
  refine ⟨fun hfree => ?_, fun added b h i s hs hheld => ?_, fun added b h => ?_⟩
  · have hlabels : a.assignIds.slots.map Slot.label = labels 1 a.typeCodes := by
      rw [slots_assignIds, labels_number hfree, typeCodes]
    refine ⟨?_, fun s hs x hx => ?_, ?_, fun hfew => ?_⟩
    · rw [typeCodes, slots_assignIds, codes_number, typeCodes]
    · have hlabel : s.label ∈ labels 1 a.typeCodes := hlabels ▸ List.mem_map_of_mem hs
      exact id_of_codes hlabel hx
    · rw [← ids_of_counted, ← hlabels, List.filter_map, List.map_map]
      rfl
    · have hnumbers : 1 + a.typeCodes.countP (fun code => ¬ Decodes code) ≤ 2 ^ 32 := by omega
      have hshared := shared_ids hnumbers
      rw [← hlabels, List.pairwise_map] at hshared
      exact hshared
  · rw [label_of_becomes h hs hheld, label_of_becomes .start hs hheld]
  · obtain ⟨hfree, hcodes⟩ := a.undisturbed added
    rw [labels_release, slots_assignIds, labels_number hfree, codes_of_becomes h, ← hcodes]
    rfl

/-- Two codes write the same number, and two write none. -/
def oddAccessory : Accessory where
  id := 2
  category := 1
  info := {}
  services :=
    [{ typeCode := "25"
       characteristics := [{ typeCode := "zz", format := .bool },
         { typeCode := "0025", format := .bool }] },
     { typeCode := "" }]

theorem ids_by_code_odd :
    oddAccessory.Free ∧
    (oddAccessory.assignIds.slots.filter fun s => ¬ Decodes s.code).map Slot.id = [1, 2] ∧
    (oddAccessory.assignIds.slots.Pairwise fun s t =>
      s.id = t.id ↔ ∃ x, Codes s.code x ∧ Codes t.code x) := by
  have hfree : oddAccessory.Free := by
    unfold Free
    decide
  have hcount : oddAccessory.typeCodes.countP (fun code => ¬ Decodes code) = 2 := by decide +kernel
  obtain ⟨-, -, hcounted, hshared⟩ := (ids_by_code oddAccessory).1 hfree
  rw [hcount] at hcounted hshared
  exact ⟨hfree, hcounted, hshared (by decide)⟩

end Accessory
end HomeSync
