import Mathlib.Logic.Relation
import HomeSync.Proofs.Adapter.View

/-
Changes of a device that no controller sees.

Among them are changes of the will and of the letter case of the type, of features
that are unknown or stand behind another feature of the same type, and of the bounds
of features that are no numbers.  None of them changes the view.
-/
namespace HomeSync

namespace Text

/-- A text whose lower-case form is not in ASCII, so it is no word of any table. -/
def Foreign (s : String) : Prop := ∃ c ∈ s.toList, 128 ≤ (foldChar c).toNat

/-- Two texts that differ in letter case at most, or are no words at all. -/
def SameWord (s s' : String) : Prop := fold s = fold s' ∨ (Foreign s ∧ Foreign s')

def isAscii (s : String) : Bool := s.toList.all fun c => c.toNat < 128

theorem fold_ne_of_foreign {s word : String} (hs : Foreign s) (hword : isAscii word = true) :
    fold s ≠ word := by
  rintro rfl
  obtain ⟨c, hc, hlarge⟩ := hs
  rw [isAscii, fold, String.toList_ofList, List.all_map, List.all_eq_true] at hword
  have hsmall : (foldChar c).toNat < 128 := of_decide_eq_true (hword c hc)
  omega

/-- A table of ASCII words leads to the same entry. -/
theorem find?_of_sameWord {α : Type} {table : List α} {key : α → String} {s s' : String}
    (htable : (table.all fun e => isAscii (key e)) = true) (h : SameWord s s') :
    table.find? (fun e => key e == fold s) = table.find? (fun e => key e == fold s') := by
  rcases h with h | ⟨hs, hs'⟩
  · rw [h]
  · have hnone : ∀ s, Foreign s → table.find? (fun e => key e == fold s) = none := by
      intro s hs
      rw [List.find?_eq_none]
      intro e he
      rw [beq_iff_eq]
      exact (fold_ne_of_foreign hs (List.all_eq_true.mp htable e he)).symm
    rw [hnone s hs, hnone s' hs']

end Text

namespace ServiceKind

theorem find?_of_sameWord {s s' : String} (h : Text.SameWord s s') : find? s = find? s' := by
  have hascii : (table.all fun k => Text.isAscii k.name) = true := by decide +kernel
  exact Text.find?_of_sameWord hascii h

end ServiceKind

namespace Category

theorem ofDeviceType_of_sameWord {s s' : String} (h : Text.SameWord s s') :
    ofDeviceType s = ofDeviceType s' := by
  have hascii : (table.all fun e => Text.isAscii e.1) = true := by decide +kernel
  rw [ofDeviceType, ofDeviceType, Text.find?_of_sameWord hascii h]

end Category

/-! ## Features that are not shown -/

namespace Binding

/-- A feature whose type is taken already, or is by an earlier feature, can be left
out. -/
theorem ofFeatures_eraseEntry {l : List (String × Feature)} {name : String}
    (hs : l.Pairwise fun a b => a.1 < b.1) {taken : List String}
    (h : ∀ c, Capability.find? name = some c → c.typeCode ∈ taken ∨
      ∃ e ∈ l, e.1 < name ∧ ∃ c', Capability.find? e.1 = some c' ∧ c'.typeCode = c.typeCode) :
    ofFeatures taken (SortedMap.eraseEntry name l) = ofFeatures taken l := by
  induction l generalizing taken with
  | nil => rfl
  | cons e rest ih =>
    obtain ⟨k, f⟩ := e
    obtain ⟨hhead, hrest⟩ := List.pairwise_cons.mp hs
    rw [SortedMap.eraseEntry]
    split
    · rfl
    · rename_i hname
      split
      · -- the entry stays, and it may be the one that takes the type
        rw [ofFeatures, ofFeatures]
        cases hk : Capability.find? k with
        | none =>
          dsimp only
          refine ih hrest fun c hc => ?_
          rcases h c hc with htaken | ⟨e, he, hlt, c', hc', hcode⟩
          · exact .inl htaken
          · rcases List.mem_cons.mp he with rfl | he
            · simp [hk] at hc'
            · exact .inr ⟨e, he, hlt, c', hc', hcode⟩
        | some ck =>
          have hmore : ∀ taken', (∀ code ∈ taken, code ∈ taken') → ck.typeCode ∈ taken' →
              ofFeatures taken' (SortedMap.eraseEntry name rest) = ofFeatures taken' rest := by
            intro taken' hsub hck
            refine ih hrest fun c hc => ?_
            rcases h c hc with htaken | ⟨e, he, hlt, c', hc', hcode⟩
            · exact .inl (hsub _ htaken)
            · rcases List.mem_cons.mp he with rfl | he
              · obtain rfl : ck = c' := Option.some.inj (hk.symm.trans hc')
                exact .inl (hcode ▸ hck)
              · exact .inr ⟨e, he, hlt, c', hc', hcode⟩
          dsimp only
          split
          · rename_i hcontains
            exact hmore taken (fun _ hcode => hcode) (List.contains_iff_mem.mp hcontains)
          · rw [hmore _ (fun _ hcode => List.mem_cons_of_mem _ hcode) List.mem_cons_self]
      · rename_i hk
        obtain rfl : k = name := SortedMap.key_eq_of_not_lt hk hname
        rw [ofFeatures]
        cases hc : Capability.find? k with
        | none => rfl
        | some c =>
          dsimp only
          rcases h c hc with htaken | ⟨e, he, hlt, -⟩
          · rw [if_pos (List.contains_iff_mem.mpr htaken)]
          · -- the earlier entries are all before this one
            rcases List.mem_cons.mp he with rfl | he
            · exact absurd hlt Std.lt_irrefl
            · exact absurd (Std.lt_trans hlt (hhead e he)) Std.lt_irrefl

/-- Only features that are numbers show bounds of their own. -/
theorem view_of_bounds {f f' : Feature} (hname : f'.name = f.name)
    (hget : f'.getTopic = f.getTopic) (hset : f'.setTopic = f.setTopic) {c : Capability}
    (hnumeric : c.isNumeric = true → f' = f) : (⟨f', c⟩ : Binding).view = (⟨f, c⟩ : Binding).view := by
  cases hc : c.isNumeric with
  | true => rw [hnumeric hc]
  | false => simp [view, characteristic, typeCode, hc, hname, hget, hset]

theorem map_view_ofFeatures_map {g : String → Feature → Feature}
    (hg : ∀ name f c, Capability.find? name = some c →
      (⟨g name f, c⟩ : Binding).view = (⟨f, c⟩ : Binding).view)
    (taken : List String) (l : List (String × Feature)) :
    (ofFeatures taken (l.map fun e => (e.1, g e.1 e.2))).map view =
      (ofFeatures taken l).map view := by
  induction l generalizing taken with
  | nil => rfl
  | cons e rest ih =>
    rw [List.map_cons, ofFeatures, ofFeatures]
    cases hc : Capability.find? e.1 with
    | none => exact ih taken
    | some c =>
      dsimp only
      split
      · exact ih taken
      · rw [List.map_cons, List.map_cons, hg e.1 e.2 c hc, ih]

end Binding

namespace Device

/-- No feature of this name would be shown: the name is unknown, or a feature with an
earlier name has the same type. -/
def Hidden (d : Device) (name : String) : Prop :=
  ∀ c, Capability.find? name = some c → ∃ name' f c', name' < name ∧
    d.features.find? name' = some f ∧ Capability.find? name' = some c' ∧ c'.typeCode = c.typeCode

theorem ofFeatures_erase_of_hidden {d : Device} {name : String} (h : d.Hidden name) :
    Binding.ofFeatures [] (d.features.erase name).toList =
      Binding.ofFeatures [] d.features.toList := by
  refine Binding.ofFeatures_eraseEntry d.features.sorted fun c hc => .inr ?_
  obtain ⟨name', f, c', hlt, hfind, hc', hcode⟩ := h c hc
  exact ⟨(name', f), SortedMap.find?_eq_some_iff.mp hfind, hlt, c', hc', hcode⟩

/-- The change of a device in something that no controller sees. -/
inductive Unseen (d : Device) : Device → Prop
  | lastWill (id : Option String) : Unseen d { d with lastWill := id }
  | reachable (r : Bool) : Unseen d { d with reachable := r }
  | letterCase {deviceType : String} :
      Text.SameWord d.deviceType deviceType → Unseen d { d with deviceType }
  /-- A feature that is not shown comes, goes or changes. -/
  | hidden {name : String} {features : SortedMap String Feature} :
      d.Hidden name → features.erase name = d.features.erase name → Unseen d { d with features }
  | bounds {g : String → Feature → Feature} :
      (∀ name f, (g name f).name = f.name ∧ (g name f).getTopic = f.getTopic ∧
        (g name f).setTopic = f.setTopic) →
      (∀ name f c, Capability.find? name = some c → c.isNumeric = true → g name f = f) →
      Unseen d { d with features := d.features.map g }

theorem view_congr {d d' : Device} (hplate : d.nameplate = d'.nameplate)
    (hcategory : Category.ofDeviceType d.deviceType = Category.ofDeviceType d'.deviceType)
    (hservice : d.mainService? = d'.mainService?)
    (hfeatures : d.bindings.map Binding.view = d'.bindings.map Binding.view) :
    d.view = d'.view := by
  have hempty : d.bindings.isEmpty = d'.bindings.isEmpty := by
    rw [← List.isEmpty_map (f := Binding.view), hfeatures, List.isEmpty_map]
  obtain ⟨hname, hmanufacturer, hmodel, hserial⟩ := nameplate_eq_iff.mp hplate
  have hname : (if d.name.isEmpty then d.topic else d.name) =
    if d'.name.isEmpty then d'.topic else d'.name := hname
  rw [view, view, hname, hmanufacturer, hmodel, hserial, hcategory, hservice, hempty, hfeatures]

theorem view_of_unseen {d d' : Device} (h : d.Unseen d') : d.view = d'.view := by
  cases h with
  | lastWill id => rfl
  | reachable r => rfl
  | letterCase hword =>
    have hservice := ServiceKind.find?_of_sameWord hword
    refine view_congr rfl (Category.ofDeviceType_of_sameWord hword) hservice ?_
    rw [bindings, bindings, mainService?, mainService?, hservice]
  | @hidden name features hhidden herase =>
    have hhidden' : ({ d with features } : Device).Hidden name := by
      intro c hc
      obtain ⟨name', f, c', hlt, hfind, hrest⟩ := hhidden c hc
      have hne : name ≠ name' := fun heq => Std.lt_irrefl (heq ▸ hlt)
      -- features of other names are the same
      have hsame := congrArg (·.find? name') herase
      simp only [SortedMap.find?_erase, if_neg hne] at hsame
      exact ⟨name', f, c', hlt, hsame.trans hfind, hrest⟩
    refine view_congr rfl rfl rfl (congrArg (List.map Binding.view) ?_)
    have hshown : Binding.ofFeatures [] (features.erase name).toList =
        Binding.ofFeatures [] features.toList := ofFeatures_erase_of_hidden hhidden'
    rw [bindings, bindings, ← ofFeatures_erase_of_hidden hhidden, ← herase, hshown]
    rfl
  | @bounds g htopics hnumeric =>
    refine view_congr rfl rfl rfl ?_
    have hmap := Binding.map_view_ofFeatures_map (g := g) (fun name f c hc =>
      Binding.view_of_bounds (htopics name f).1 (htopics name f).2.1 (htopics name f).2.2
        (hnumeric name f c hc)) [] d.features.toList
    have hservice : ({ d with features := d.features.map g } : Device).mainService? =
        d.mainService? := rfl
    rw [bindings, bindings, hservice]
    split
    · exact hmap.symm
    · rfl

theorem view_of_unseen_changes {d d' : Device} (h : Relation.ReflTransGen Unseen d d') :
    d.view = d'.view := by
  induction h with
  | refl => rfl
  | tail _ hstep ih => exact ih.trans (view_of_unseen hstep)

end Device
end HomeSync
