import HomeSync.SortedMap.Basic

/-
Look-ups in a sorted map after each operation, and extensionality: a map is
determined by its look-ups.  The values of a map change by one at each
operation, which is stated up to their order.
-/
namespace HomeSync
namespace SortedMap

section Order

variable {κ : Type} [LT κ] [LE κ] [Std.IsLinearOrder κ] [Std.LawfulOrderLT κ]

theorem key_eq_of_not_lt {a b : κ} (h₁ : ¬ a < b) (h₂ : ¬ b < a) : a = b :=
  Std.le_antisymm (Std.not_lt.mp h₂) (Std.not_lt.mp h₁)

end Order

section Lookup

variable {κ ν : Type} [LT κ] [DecidableLT κ]

@[simp] theorem find?_empty (k : κ) : (empty : SortedMap κ ν).find? k = none := rfl

theorem valueAt?_eq_none_of_lt {k : κ} {l : List (κ × ν)} (h : ∀ e ∈ l, k < e.1) :
    valueAt? k l = none := by
  cases l with
  | nil => rfl
  | cons a rest => simp [valueAt?, h a List.mem_cons_self]

end Lookup

variable {κ ν μ : Type} [LT κ] [DecidableLT κ] [LE κ] [Std.IsLinearOrder κ] [Std.LawfulOrderLT κ]

theorem valueAt?_insertEntry (k k' : κ) (v : ν) (l : List (κ × ν)) :
    valueAt? k' (insertEntry k v l) =
      if ¬ k < k' ∧ ¬ k' < k then some v else valueAt? k' l := by
  induction l with
  | nil =>
    simp only [insertEntry, valueAt?]
    by_cases h₁ : k' < k
    · simp [h₁]
    · by_cases h₂ : k < k' <;> simp [h₁, h₂]
  | cons a rest ih =>
    obtain ⟨j, w⟩ := a
    simp only [insertEntry]
    split
    · rename_i hkj
      by_cases h₁ : k' < k
      · have := Std.lt_trans h₁ hkj
        simp [valueAt?, h₁, this]
      · by_cases h₂ : k < k' <;> simp [valueAt?, h₁, h₂]
    · rename_i hkj
      split
      · rename_i hjk
        simp only [valueAt?, ih]
        by_cases h₁ : k' < j
        · have := Std.lt_trans h₁ hjk
          simp [h₁, this]
        · by_cases h₂ : j < k'
          · simp [h₁, h₂]
          · have := key_eq_of_not_lt h₁ h₂
            subst this
            simp [h₁, hjk]
      · rename_i hjk
        have := key_eq_of_not_lt hkj hjk
        subst this
        simp only [valueAt?]
        by_cases h₁ : k' < k
        · simp [h₁]
        · by_cases h₂ : k < k' <;> simp [h₁, h₂]

theorem find?_insert [DecidableEq κ] (m : SortedMap κ ν) (k k' : κ) (v : ν) :
    (m.insert k v).find? k' = if k = k' then some v else m.find? k' := by
  simp only [find?, insert, valueAt?_insertEntry]
  by_cases h : k = k'
  · subst h
    simp [Std.lt_irrefl]
  · have : ¬ (¬ k < k' ∧ ¬ k' < k) := fun ⟨h₁, h₂⟩ => h (key_eq_of_not_lt h₁ h₂)
    simp only [if_neg h, if_neg this]

@[simp] theorem find?_insert_self (m : SortedMap κ ν) (k : κ) (v : ν) :
    (m.insert k v).find? k = some v := by
  simp [find?, insert, valueAt?_insertEntry, Std.lt_irrefl]

theorem valueAt?_eraseEntry [DecidableEq κ] {l : List (κ × ν)}
    (hs : l.Pairwise (fun a b => a.1 < b.1)) (k k' : κ) :
    valueAt? k' (eraseEntry k l) = if k = k' then none else valueAt? k' l := by
  induction l with
  | nil => simp [eraseEntry, valueAt?]
  | cons a rest ih =>
    obtain ⟨j, w⟩ := a
    obtain ⟨hhead, hrest⟩ := List.pairwise_cons.mp hs
    have ih := ih hrest
    simp only [eraseEntry]
    split
    · rename_i hkj
      by_cases h : k = k'
      · subst h
        simp [valueAt?, hkj]
      · simp [h]
    · rename_i hkj
      split
      · rename_i hjk
        simp only [valueAt?, ih]
        by_cases h : k = k'
        · subst h
          simp [hkj, hjk]
        · simp [h]
      · rename_i hjk
        have hkj' := key_eq_of_not_lt hkj hjk
        subst hkj'
        by_cases h : k = k'
        · subst h
          simpa using valueAt?_eq_none_of_lt hhead
        · simp only [if_neg h, valueAt?]
          by_cases h₁ : k' < k
          · have : ∀ e ∈ rest, k' < e.1 := fun e he => Std.lt_trans h₁ (hhead e he)
            simp [h₁, valueAt?_eq_none_of_lt this]
          · by_cases h₂ : k < k'
            · simp [h₁, h₂]
            · exact absurd (key_eq_of_not_lt h₂ h₁) h

theorem find?_erase [DecidableEq κ] (m : SortedMap κ ν) (k k' : κ) :
    (m.erase k).find? k' = if k = k' then none else m.find? k' :=
  valueAt?_eraseEntry m.sorted k k'

theorem find?_insert_eq_some_iff [DecidableEq κ] {m : SortedMap κ ν} {k k' : κ} {v w : ν} :
    (m.insert k v).find? k' = some w ↔
      (k = k' ∧ v = w) ∨ (k ≠ k' ∧ m.find? k' = some w) := by
  rw [find?_insert]
  by_cases hk : k = k' <;> simp [hk]

theorem find?_erase_eq_some_iff [DecidableEq κ] {m : SortedMap κ ν} {k k' : κ} {v : ν} :
    (m.erase k).find? k' = some v ↔ k ≠ k' ∧ m.find? k' = some v := by
  rw [find?_erase]
  by_cases hk : k = k' <;> simp [hk]

theorem valueAt?_map (f : κ → ν → μ) (k : κ) (l : List (κ × ν)) :
    valueAt? k (l.map fun e => (e.1, f e.1 e.2)) = (valueAt? k l).map (f k) := by
  induction l with
  | nil => rfl
  | cons a rest ih =>
    obtain ⟨j, w⟩ := a
    simp only [List.map_cons, valueAt?, ih]
    by_cases h₁ : k < j
    · simp [h₁]
    · by_cases h₂ : j < k
      · simp [h₁, h₂]
      · have := key_eq_of_not_lt h₁ h₂
        subst this
        simp [h₁]

@[simp] theorem find?_map (f : κ → ν → μ) (m : SortedMap κ ν) (k : κ) :
    (m.map f).find? k = (m.find? k).map (f k) :=
  valueAt?_map f k m.entries

theorem valueAt?_eq_some_iff {l : List (κ × ν)} (hs : l.Pairwise (fun a b => a.1 < b.1))
    {k : κ} {v : ν} : valueAt? k l = some v ↔ (k, v) ∈ l := by
  induction l with
  | nil => simp [valueAt?]
  | cons a rest ih =>
    obtain ⟨j, w⟩ := a
    obtain ⟨hhead, hrest⟩ := List.pairwise_cons.mp hs
    have ih := ih hrest
    simp only [valueAt?, List.mem_cons, Prod.mk.injEq]
    by_cases h₁ : k < j
    · simp only [if_pos h₁]
      refine ⟨fun h => by simp at h, fun h => ?_⟩
      rcases h with ⟨rfl, -⟩ | h
      · exact absurd h₁ Std.lt_irrefl
      · exact absurd (Std.lt_trans h₁ (hhead _ h)) Std.lt_irrefl
    · by_cases h₂ : j < k
      · simp only [if_neg h₁, if_pos h₂, ih]
        refine ⟨Or.inr, fun h => ?_⟩
        rcases h with ⟨rfl, -⟩ | h
        · exact absurd h₂ Std.lt_irrefl
        · exact h
      · have := key_eq_of_not_lt h₁ h₂
        subst this
        simp only [if_neg h₁, Option.some.injEq, true_and]
        refine ⟨fun h => Or.inl h.symm, fun h => ?_⟩
        rcases h with h | h
        · exact h.symm
        · exact absurd (hhead _ h) Std.lt_irrefl

/-- What is found under a key is what the listing shows. -/
theorem find?_eq_some_iff {m : SortedMap κ ν} {k : κ} {v : ν} :
    m.find? k = some v ↔ (k, v) ∈ m.toList :=
  valueAt?_eq_some_iff m.sorted

omit [DecidableLT κ] in
/-- Two ascending lists with the same members are the same list. -/
theorem entries_ext {l₁ l₂ : List (κ × ν)} (h₁ : l₁.Pairwise (fun a b => a.1 < b.1))
    (h₂ : l₂.Pairwise (fun a b => a.1 < b.1)) (h : ∀ e, e ∈ l₁ ↔ e ∈ l₂) : l₁ = l₂ := by
  induction l₁ generalizing l₂ with
  | nil =>
    cases l₂ with
    | nil => rfl
    | cons b l₂ => exact absurd ((h b).mpr List.mem_cons_self) (by simp)
  | cons a l₁ ih =>
    cases l₂ with
    | nil => exact absurd ((h a).mp List.mem_cons_self) (by simp)
    | cons b l₂ =>
      obtain ⟨ha, hl₁⟩ := List.pairwise_cons.mp h₁
      obtain ⟨hb, hl₂⟩ := List.pairwise_cons.mp h₂
      have hab : a = b := by
        rcases List.mem_cons.mp ((h a).mp List.mem_cons_self) with h' | h'
        · exact h'
        · rcases List.mem_cons.mp ((h b).mpr List.mem_cons_self) with h'' | h''
          · exact h''.symm
          · exact absurd (Std.lt_trans (ha b h'') (hb a h')) Std.lt_irrefl
      subst hab
      rw [ih hl₁ hl₂ (fun e => ?_)]
      refine ⟨fun he => ?_, fun he => ?_⟩
      · rcases List.mem_cons.mp ((h e).mp (List.mem_cons_of_mem _ he)) with rfl | h'
        · exact absurd (ha e he) Std.lt_irrefl
        · exact h'
      · rcases List.mem_cons.mp ((h e).mpr (List.mem_cons_of_mem _ he)) with rfl | h'
        · exact absurd (hb e he) Std.lt_irrefl
        · exact h'

/-- A map is determined by its look-ups. -/
theorem ext_find? {a b : SortedMap κ ν} (h : ∀ k, a.find? k = b.find? k) : a = b := by
  refine eq_of_entries_eq (entries_ext a.sorted b.sorted fun e => ?_)
  obtain ⟨k, v⟩ := e
  rw [← valueAt?_eq_some_iff a.sorted, ← valueAt?_eq_some_iff b.sorted]
  exact iff_of_eq (congrArg (· = some v) (h k))

/-! ## Keys and values -/

theorem mem_keys_iff {m : SortedMap κ ν} {k : κ} : k ∈ m.keys ↔ (m.find? k).isSome := by
  rw [Option.isSome_iff_exists]
  constructor
  · intro h
    obtain ⟨e, he, rfl⟩ := List.mem_map.mp h
    exact ⟨e.2, find?_eq_some_iff.mpr he⟩
  · rintro ⟨v, hv⟩
    exact List.mem_map.mpr ⟨(k, v), find?_eq_some_iff.mp hv, rfl⟩

theorem mem_values_iff {m : SortedMap κ ν} {v : ν} : v ∈ m.values ↔ ∃ k, m.find? k = some v := by
  constructor
  · intro h
    obtain ⟨e, he, rfl⟩ := List.mem_map.mp h
    exact ⟨e.1, find?_eq_some_iff.mpr he⟩
  · rintro ⟨k, hk⟩
    exact List.mem_map.mpr ⟨(k, v), find?_eq_some_iff.mp hk, rfl⟩

omit [DecidableLT κ] [Std.IsLinearOrder κ] in
theorem nodup_keys (m : SortedMap κ ν) : m.keys.Nodup := by
  rw [keys, List.Nodup, List.pairwise_map]
  refine m.sorted.imp fun {a b} hlt => ?_
  intro heq
  rw [heq] at hlt
  exact Std.lt_irrefl hlt

/-- Maps that have the same keys list them alike. -/
theorem keys_eq_of_find? {a : SortedMap κ ν} {b : SortedMap κ μ}
    (h : ∀ k, (a.find? k).isSome = (b.find? k).isSome) : a.keys = b.keys := by
  have hunit : a.map (fun _ _ => ()) = b.map (fun _ _ => ()) := by
    apply ext_find?
    intro k
    have hk := h k
    rw [find?_map, find?_map]
    cases ha : a.find? k <;> cases hb : b.find? k <;> simp [ha, hb] at hk ⊢
  have hkeys := congrArg keys hunit
  simpa [keys, map, Function.comp_def] using hkeys

theorem insertEntry_perm {l : List (κ × ν)} (hs : l.Pairwise (fun a b => a.1 < b.1))
    (k : κ) (v : ν) : (insertEntry k v l).Perm ((k, v) :: eraseEntry k l) := by
  induction l with
  | nil => exact List.Perm.refl _
  | cons a rest ih =>
    obtain ⟨j, w⟩ := a
    have ih := ih (List.pairwise_cons.mp hs).2
    simp only [insertEntry, eraseEntry]
    split
    · exact List.Perm.refl _
    · split
      · exact (List.Perm.cons _ ih).trans (List.Perm.swap _ _ _)
      · rename_i hkj hjk
        rw [key_eq_of_not_lt hjk hkj]

theorem eraseEntry_perm {l : List (κ × ν)} {k : κ} {v : ν} (h : valueAt? k l = some v) :
    l.Perm ((k, v) :: eraseEntry k l) := by
  induction l with
  | nil => simp [valueAt?] at h
  | cons a rest ih =>
    obtain ⟨j, w⟩ := a
    simp only [valueAt?] at h
    simp only [eraseEntry]
    split at h
    · simp at h
    · rename_i hkj
      rw [if_neg hkj]
      split at h
      · rename_i hjk
        rw [if_pos hjk]
        exact (List.Perm.cons _ (ih h)).trans (List.Perm.swap _ _ _)
      · rename_i hjk
        rw [if_neg hjk, key_eq_of_not_lt hkj hjk, Option.some.inj h]

/-- A bound key brings one value, in the place of what was there. -/
theorem values_insert_perm (m : SortedMap κ ν) (k : κ) (v : ν) :
    (m.insert k v).values.Perm (v :: (m.erase k).values) :=
  (insertEntry_perm m.sorted k v).map Prod.snd

theorem values_erase_perm {m : SortedMap κ ν} {k : κ} {v : ν} (h : m.find? k = some v) :
    m.values.Perm (v :: (m.erase k).values) :=
  (eraseEntry_perm h).map Prod.snd

omit [DecidableLT κ] [LE κ] [Std.IsLinearOrder κ] [Std.LawfulOrderLT κ] in
theorem length_values (m : SortedMap κ ν) : m.values.length = m.size := List.length_map _

theorem size_insert (m : SortedMap κ ν) (k : κ) (v : ν) :
    (m.insert k v).size = (m.erase k).size + 1 := by
  have hlength := (values_insert_perm m k v).length_eq
  rwa [List.length_cons, length_values, length_values] at hlength

theorem size_erase {m : SortedMap κ ν} {k : κ} {v : ν} (h : m.find? k = some v) :
    (m.erase k).size + 1 = m.size := by
  have hlength := (values_erase_perm h).length_eq
  rw [List.length_cons, length_values, length_values] at hlength
  exact hlength.symm

theorem find?_of_mem_values_erase [DecidableEq κ] {m : SortedMap κ ν} {k : κ} {v : ν}
    (h : v ∈ (m.erase k).values) : ∃ k', k ≠ k' ∧ m.find? k' = some v := by
  obtain ⟨k', hk'⟩ := mem_values_iff.mp h
  exact ⟨k', find?_erase_eq_some_iff.mp hk'⟩

theorem erase_of_find?_none [DecidableEq κ] {m : SortedMap κ ν} {k : κ} (h : m.find? k = none) :
    m.erase k = m := by
  apply ext_find?
  intro k'
  rw [find?_erase]
  split
  · rename_i hk
    rw [← hk, h]
  · rfl

/-! ## Maps of ascending lists -/

theorem insertEntry_concat {l : List (κ × ν)} {k : κ} {v : ν} (h : ∀ e ∈ l, e.1 < k) :
    insertEntry k v l = l ++ [(k, v)] := by
  induction l with
  | nil => rfl
  | cons a rest ih =>
    obtain ⟨j, w⟩ := a
    have hlt : j < k := h (j, w) List.mem_cons_self
    have hge : ¬ k < j := fun hkj => Std.lt_irrefl (Std.lt_trans hlt hkj)
    rw [insertEntry, if_neg hge, if_pos hlt, ih fun e he => h e (List.mem_cons_of_mem _ he),
      List.cons_append]

theorem entries_foldl_insert {l : List (κ × ν)} {m : SortedMap κ ν}
    (h : (m.entries ++ l).Pairwise fun a b => a.1 < b.1) :
    (l.foldl (fun m e => m.insert e.1 e.2) m).entries = m.entries ++ l := by
  induction l generalizing m with
  | nil => rw [List.foldl_nil, List.append_nil]
  | cons e rest ih =>
    have hbelow : ∀ a ∈ m.entries, a.1 < e.1 := fun a ha =>
      (List.pairwise_append.mp h).2.2 a ha e List.mem_cons_self
    have hentries : (m.insert e.1 e.2).entries = m.entries ++ [e] := insertEntry_concat hbelow
    rw [List.append_cons, ← hentries] at h
    rw [List.foldl_cons, ih h, hentries, ← List.append_cons]

/-- Listing a map and making a map of the list gives the map back. -/
theorem ofList_toList (m : SortedMap κ ν) : ofList m.toList = m :=
  eq_of_entries_eq (entries_foldl_insert m.sorted)

/-! ## Maps of lists that have each key once -/

theorem find?_foldl_insert [DecidableEq κ] {l : List (κ × ν)} (h : (l.map Prod.fst).Nodup)
    (m : SortedMap κ ν) {k : κ} {v : ν} :
    (l.foldl (fun m e => m.insert e.1 e.2) m).find? k = some v ↔
      (k, v) ∈ l ∨ (k ∉ l.map Prod.fst ∧ m.find? k = some v) := by
  induction l generalizing m with
  | nil => simp
  | cons e rest ih =>
    obtain ⟨key, w⟩ := e
    obtain ⟨hfresh, hrest⟩ := List.nodup_cons.mp h
    have hmem : (key, v) ∉ rest := fun hmem =>
      hfresh (List.mem_map.mpr ⟨(key, v), hmem, rfl⟩)
    rw [List.foldl_cons, ih hrest, find?_insert_eq_some_iff, List.map_cons, List.mem_cons,
      List.mem_cons, Prod.mk.injEq]
    by_cases hkey : key = k
    · subst hkey
      simp [hmem, hfresh, eq_comm]
    · simp [hkey, Ne.symm hkey]

theorem ofList_perm [DecidableEq κ] {l l' : List (κ × ν)} (h : (l.map Prod.fst).Nodup)
    (hperm : l'.Perm l) : ofList l' = ofList l := by
  have h' : (l'.map Prod.fst).Nodup := (hperm.map Prod.fst).nodup_iff.mpr h
  apply ext_find?
  intro k
  apply Option.ext
  intro v
  rw [ofList, ofList, find?_foldl_insert h, find?_foldl_insert h', hperm.mem_iff,
    (hperm.map Prod.fst).mem_iff]

end SortedMap
end HomeSync
