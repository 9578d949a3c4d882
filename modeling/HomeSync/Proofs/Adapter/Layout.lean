import HomeSync.Proofs.Adapter.Coding
import HomeSync.Proofs.Text.ByteOrder

/-
What a blueprint looks like for any device.

Several names of features can mean one type of characteristic: there are aliases, and the
letter case does not count.  A blueprint goes through the names in the order of their bytes
and shows the first feature of each type.  The tables of type codes have nothing in common
with each other or with the fixed services, and every code has an id above the low numbers,
so no two slots of an accessory share an id and a feature is found again by its type.
-/
namespace HomeSync

/-! ## The first of each type -/

namespace Binding

/-- The features that have a known name, with what the name means. -/
def known (l : List (String × Feature)) : List Binding :=
  l.filterMap fun e => (Capability.find? e.1).map fun c => ⟨e.2, c⟩

/-- The bindings whose type code is not taken, by others or by an earlier one. -/
def distinct (taken : List String) : List Binding → List Binding
  | [] => []
  | b :: rest =>
    if b.typeCode ∈ taken then distinct taken rest
    else b :: distinct (b.typeCode :: taken) rest

/-- Of the bindings of each type code the first one, in the given order. -/
structure Firsts (all firsts : List Binding) : Prop where
  order : firsts.Sublist all
  once : (firsts.map typeCode).Nodup
  first : ∀ b ∈ firsts, all.find? (·.typeCode == b.typeCode) = some b
  every : ∀ b ∈ all, b.typeCode ∈ firsts.map typeCode

theorem ofFeatures_eq_distinct (taken : List String) (l : List (String × Feature)) :
    ofFeatures taken l = distinct taken (known l) := by
  induction l generalizing taken with
  | nil => rfl
  | cons e rest ih =>
    obtain ⟨name, feature⟩ := e
    rw [ofFeatures]
    cases hfind : Capability.find? name with
    | none =>
      have hknown : known ((name, feature) :: rest) = known rest :=
        List.filterMap_cons_none (by rw [hfind]; rfl)
      rw [hknown]
      exact ih taken
    | some c =>
      have hknown : known ((name, feature) :: rest) = ⟨feature, c⟩ :: known rest :=
        List.filterMap_cons_some (by rw [hfind]; rfl)
      rw [hknown, distinct, ← ih, ← ih]
      simp only [List.contains_iff_mem]
      rfl

theorem distinct_sublist (taken : List String) (l : List Binding) :
    (distinct taken l).Sublist l := by
  induction l generalizing taken with
  | nil => exact List.Sublist.refl []
  | cons b rest ih =>
    rw [distinct]
    split
    · exact (ih taken).cons b
    · exact (ih _).cons_cons b

theorem typeCode_not_mem_of_mem_distinct {taken : List String} {l : List Binding} {b : Binding}
    (h : b ∈ distinct taken l) : b.typeCode ∉ taken := by
  induction l generalizing taken with
  | nil => exact absurd h List.not_mem_nil
  | cons b' rest ih =>
    rw [distinct] at h
    split at h
    · exact ih h
    · rename_i hfree
      rcases List.mem_cons.mp h with rfl | h
      · exact hfree
      · exact fun htaken => ih h (List.mem_cons_of_mem _ htaken)

theorem nodup_distinct (taken : List String) (l : List Binding) :
    ((distinct taken l).map typeCode).Nodup := by
  induction l generalizing taken with
  | nil => exact List.nodup_nil
  | cons b rest ih =>
    rw [distinct]
    split
    · exact ih taken
    · rw [List.map_cons, List.nodup_cons]
      refine ⟨fun hmem => ?_, ih _⟩
      obtain ⟨b', hb', heq⟩ := List.mem_map.mp hmem
      exact typeCode_not_mem_of_mem_distinct hb' (heq ▸ List.mem_cons_self)

theorem find?_of_mem_distinct {taken : List String} {l : List Binding} {b : Binding}
    (h : b ∈ distinct taken l) : l.find? (·.typeCode == b.typeCode) = some b := by
  have hskip : ∀ (b' : Binding) (rest : List Binding), b'.typeCode ≠ b.typeCode →
      (b' :: rest).find? (·.typeCode == b.typeCode) =
        rest.find? (·.typeCode == b.typeCode) := fun b' rest hne =>
    List.find?_cons_of_neg fun heq => hne (beq_iff_eq.mp heq)
  induction l generalizing taken with
  | nil => exact absurd h List.not_mem_nil
  | cons b' rest ih =>
    have hfree := typeCode_not_mem_of_mem_distinct h
    rw [distinct] at h
    split at h
    · rename_i htaken
      rw [hskip b' rest fun heq => hfree (heq ▸ htaken)]
      exact ih h
    · rcases List.mem_cons.mp h with rfl | h
      · exact List.find?_cons_of_pos (beq_self_eq_true _)
      · have hfree := typeCode_not_mem_of_mem_distinct h
        rw [hskip b' rest fun heq => hfree (heq ▸ List.mem_cons_self)]
        exact ih h

/-- A type code is left out only where it was taken before. -/
theorem typeCode_mem_distinct {taken : List String} {l : List Binding} {b : Binding}
    (h : b ∈ l) (hfree : b.typeCode ∉ taken) : b.typeCode ∈ (distinct taken l).map typeCode := by
  induction l generalizing taken with
  | nil => exact absurd h List.not_mem_nil
  | cons b' rest ih =>
    rw [distinct]
    by_cases hcode : b.typeCode = b'.typeCode
    · rw [if_neg (hcode ▸ hfree), List.map_cons, hcode]
      exact List.mem_cons_self
    · have hrest : b ∈ rest := (List.mem_cons.mp h).resolve_left fun heq => hcode (heq ▸ rfl)
      split
      · exact ih hrest hfree
      · refine List.mem_cons_of_mem _ (ih hrest fun hmem => ?_)
        exact (List.mem_cons.mp hmem).elim hcode hfree

theorem firsts_ofFeatures (l : List (String × Feature)) : Firsts (known l) (ofFeatures [] l) := by
  rw [ofFeatures_eq_distinct]
  exact ⟨distinct_sublist [] _, nodup_distinct [] _, fun _ => find?_of_mem_distinct,
    fun _ hb => typeCode_mem_distinct hb List.not_mem_nil⟩

end Binding

/-! ## Ids -/

namespace Identity

end Identity

open Identity

namespace Accessory

/-- The ids of all services and of all characteristics. -/
def ids (a : Accessory) : List Nat :=
  a.services.flatMap fun s => s.id :: s.characteristics.map (·.id)

end Accessory

/-! ## The layout -/

namespace Device

end Device
end HomeSync
