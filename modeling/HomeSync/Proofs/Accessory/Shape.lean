import HomeSync.Proofs.Accessory.Face

/-
The structure of an accessory as one value.

Two accessories are compared field by field, list by list and bound by bound.  All
that the comparison looks at is gathered in the shape, where a bound is kept as the
number it stands for.  Accessories without NaN as a bound agree in structure exactly
if their shapes are equal.
-/
namespace HomeSync

namespace Binary64

/-- The number that a binary64 stands for.  The zeros, and all ways to write a number
by mantissa and exponent, are one number. -/
inductive Number where
  | nan
  | infinite (negative : Bool)
  /-- A multiple of `2 ^ -1074`. -/
  | units (n : Int)
  deriving DecidableEq

def number : Binary64 → Number
  | .nan => .nan
  | .infinite negative => .infinite negative
  | .finite negative mantissa exponent => .units (multiple negative mantissa exponent)

theorem same_iff {a b : Binary64} : same a b = true ↔ a ≠ .nan ∧ a.number = b.number := by
  cases a with
  | nan => simp [same, le]
  | infinite s =>
    cases b with
    | nan => cases s <;> simp [same, le, number]
    | infinite s' => cases s <;> cases s' <;> simp [same, le, number]
    | finite s' m' e' => cases s <;> simp [same, le, number]
  | finite s m e =>
    cases b with
    | nan => simp [same, le, number]
    | infinite s' => cases s' <;> simp [same, le, number]
    | finite s' m' e' =>
      simp only [same, le, number, Bool.and_eq_true, decide_eq_true_eq, Number.units.injEq, ne_eq,
        reduceCtorEq, not_false_eq_true, true_and]
      exact ⟨fun h => Int.le_antisymm h.1 h.2, fun h => ⟨Int.le_of_eq h, Int.le_of_eq h.symm⟩⟩

end Binary64

/-- Two lists agree place by place in what a comparison looks at. -/
theorem all_zip_iff {α β : Type} {r : α → α → Bool} {P : α → Prop} {f : α → β}
    (hr : ∀ a b, r a b = true ↔ P a ∧ f a = f b) (l l' : List α) :
    (l.length = l'.length ∧ (l.zip l').all (fun p => r p.1 p.2) = true) ↔
      (∀ a ∈ l, P a) ∧ l.map f = l'.map f := by
  induction l generalizing l' with
  | nil => cases l' <;> simp
  | cons a rest ih =>
    cases l' with
    | nil => simp
    | cons b rest' =>
      have hrest := ih rest'
      simp only [List.length_cons, Nat.add_right_cancel_iff, List.zip_cons_cons, List.all_cons,
        Bool.and_eq_true, hr, List.mem_cons, forall_eq_or_imp, List.map_cons, List.cons.injEq]
      constructor
      · rintro ⟨hlength, ⟨ha, hab⟩, hall⟩
        obtain ⟨hP, hmap⟩ := hrest.mp ⟨hlength, hall⟩
        exact ⟨⟨ha, hP⟩, hab, hmap⟩
      · rintro ⟨⟨ha, hP⟩, hab, hmap⟩
        obtain ⟨hlength, hall⟩ := hrest.mpr ⟨hP, hmap⟩
        exact ⟨hlength, ⟨ha, hab⟩, hall⟩

namespace Characteristic

/-- What the comparison of two characteristics looks at. -/
structure Shape where
  id : Nat
  typeCode : String
  format : Format
  min : Option Binary64.Number
  max : Option Binary64.Number
  step : Option Binary64.Number
  writable : Bool
  deriving DecidableEq

def shape (c : Characteristic) : Shape where
  id := c.id
  typeCode := c.typeCode
  format := c.format
  min := c.min.map Binary64.number
  max := c.max.map Binary64.number
  step := c.step.map Binary64.number
  writable := c.writable

theorem sameBound_iff {a b : Option Binary64} :
    sameBound a b = true ↔ a ≠ some .nan ∧ a.map Binary64.number = b.map Binary64.number := by
  cases a <;> cases b <;> simp [sameBound, Binary64.same_iff]

theorem sameStructure_iff (a b : Characteristic) :
    a.sameStructure b = true ↔ a.Bounded ∧ a.shape = b.shape := by
  simp only [sameStructure, Bool.and_eq_true, beq_iff_eq, sameBound_iff, Bounded, shape,
    Shape.mk.injEq]
  constructor
  · rintro ⟨⟨⟨⟨⟨⟨hid, hcode⟩, hformat⟩, hmin, hmin'⟩, hmax, hmax'⟩, hstep, hstep'⟩, hwritable⟩
    exact ⟨⟨hmin, hmax, hstep⟩, hid, hcode, hformat, hmin', hmax', hstep', hwritable⟩
  · rintro ⟨⟨hmin, hmax, hstep⟩, hid, hcode, hformat, hmin', hmax', hstep', hwritable⟩
    exact ⟨⟨⟨⟨⟨⟨hid, hcode⟩, hformat⟩, hmin, hmin'⟩, hmax, hmax'⟩, hstep, hstep'⟩, hwritable⟩

end Characteristic

namespace Service

structure Shape where
  id : Nat
  typeCode : String
  characteristics : List Characteristic.Shape
  deriving DecidableEq

def shape (s : Service) : Shape where
  id := s.id
  typeCode := s.typeCode
  characteristics := s.characteristics.map Characteristic.shape

theorem sameStructure_iff (a b : Service) :
    a.sameStructure b = true ↔ (∀ c ∈ a.characteristics, c.Bounded) ∧ a.shape = b.shape := by
  have hlists := all_zip_iff Characteristic.sameStructure_iff a.characteristics b.characteristics
  simp only [sameStructure, Bool.and_eq_true, beq_iff_eq, shape, Shape.mk.injEq]
  rw [and_assoc, hlists]
  constructor
  · rintro ⟨⟨hid, hcode⟩, hbounded, hshapes⟩
    exact ⟨hbounded, hid, hcode, hshapes⟩
  · rintro ⟨hbounded, hid, hcode, hshapes⟩
    exact ⟨⟨hid, hcode⟩, hbounded, hshapes⟩

end Service

namespace Accessory

structure Shape where
  id : Nat
  category : Nat
  info : Nameplate
  services : List Service.Shape
  deriving DecidableEq

def shape (a : Accessory) : Shape where
  id := a.id
  category := a.category
  info := a.info
  services := a.services.map Service.shape

theorem sameStructure_iff (a b : Accessory) :
    a.sameStructure b = true ↔ (∀ c ∈ a.characteristics, c.Bounded) ∧ a.shape = b.shape := by
  have hlists := all_zip_iff Service.sameStructure_iff a.services b.services
  have hbounded : (∀ s ∈ a.services, ∀ c ∈ s.characteristics, c.Bounded) ↔
      ∀ c ∈ a.characteristics, c.Bounded := by
    constructor
    · intro h c hc
      obtain ⟨s, hs, hmem⟩ := List.mem_flatMap.mp hc
      exact h s hs c hmem
    · intro h s hs c hc
      exact h c (List.mem_flatMap.mpr ⟨s, hs, hc⟩)
  simp only [sameStructure, Bool.and_eq_true, beq_iff_eq, shape, Shape.mk.injEq]
  rw [and_assoc, hlists, hbounded]
  constructor
  · rintro ⟨⟨⟨hid, hcategory⟩, hinfo⟩, hnone, hshapes⟩
    exact ⟨hnone, hid, hcategory, hinfo, hshapes⟩
  · rintro ⟨hnone, hid, hcategory, hinfo, hshapes⟩
    exact ⟨⟨⟨hid, hcategory⟩, hinfo⟩, hnone, hshapes⟩

end Accessory
end HomeSync
