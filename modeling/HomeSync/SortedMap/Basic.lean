/-
Finite maps kept as lists of entries in strictly ascending key order.

The order of the keys is part of the type, so two maps with the same bindings
are the same value and a listing of a map needs no sorting.  Keys are compared
with the linear order of their type; for strings that is the order of the code
points, which is also the order of the UTF-8 bytes.
-/
namespace HomeSync

/-- A finite map from `κ` to `ν`, listed by ascending key. -/
structure SortedMap (κ ν : Type) [LT κ] where
  entries : List (κ × ν)
  sorted : entries.Pairwise (fun a b => a.1 < b.1)

namespace SortedMap

/-! ## Lists of entries

The operations are defined on plain lists first and carried to maps together
with the proof that they keep the order. -/

section Entries

variable {κ ν μ : Type} [LT κ] [DecidableLT κ]

/-- Put a value under a key, in front of the first larger key.  An equal key
loses its old value. -/
def insertEntry (k : κ) (v : ν) : List (κ × ν) → List (κ × ν)
  | [] => [(k, v)]
  | (k', v') :: rest =>
    if k < k' then (k, v) :: (k', v') :: rest
    else if k' < k then (k', v') :: insertEntry k v rest
    else (k', v) :: rest

def valueAt? (k : κ) : List (κ × ν) → Option ν
  | [] => none
  | (k', v') :: rest =>
    if k < k' then none
    else if k' < k then valueAt? k rest
    else some v'

def eraseEntry (k : κ) : List (κ × ν) → List (κ × ν)
  | [] => []
  | (k', v') :: rest =>
    if k < k' then (k', v') :: rest
    else if k' < k then (k', v') :: eraseEntry k rest
    else rest

theorem mem_insertEntry {k : κ} {v : ν} {l : List (κ × ν)} {e : κ × ν}
    (h : e ∈ insertEntry k v l) : e.1 = k ∨ ∃ e' ∈ l, e'.1 = e.1 := by
  induction l with
  | nil =>
    obtain rfl : e = (k, v) := by simpa [insertEntry] using h
    exact Or.inl rfl
  | cons a rest ih =>
    obtain ⟨k', v'⟩ := a
    simp only [insertEntry] at h
    split at h
    · rcases List.mem_cons.mp h with rfl | h
      · exact Or.inl rfl
      · exact Or.inr ⟨e, h, rfl⟩
    · split at h
      · rcases List.mem_cons.mp h with rfl | h
        · exact Or.inr ⟨_, List.mem_cons_self, rfl⟩
        · rcases ih h with h | ⟨e', he', hk⟩
          · exact Or.inl h
          · exact Or.inr ⟨e', List.mem_cons_of_mem _ he', hk⟩
      · rcases List.mem_cons.mp h with rfl | h
        · exact Or.inr ⟨_, List.mem_cons_self, rfl⟩
        · exact Or.inr ⟨e, List.mem_cons_of_mem _ h, rfl⟩

theorem eraseEntry_sublist (k : κ) (l : List (κ × ν)) : (eraseEntry k l).Sublist l := by
  induction l with
  | nil => exact List.Sublist.refl _
  | cons a rest ih =>
    obtain ⟨k', v'⟩ := a
    simp only [eraseEntry]
    split
    · exact List.Sublist.refl _
    · split
      · exact ih.cons_cons _
      · exact List.sublist_cons_self _ _

theorem sorted_insertEntry [LE κ] [Std.IsLinearOrder κ] [Std.LawfulOrderLT κ] {l : List (κ × ν)}
    (k : κ) (v : ν) (h : l.Pairwise (fun a b => a.1 < b.1)) :
    (insertEntry k v l).Pairwise (fun a b => a.1 < b.1) := by
  induction l with
  | nil => simp [insertEntry]
  | cons a rest ih =>
    obtain ⟨k', v'⟩ := a
    have hrest := (List.pairwise_cons.mp h).2
    have hhead := (List.pairwise_cons.mp h).1
    simp only [insertEntry]
    split
    · rename_i hlt
      refine List.pairwise_cons.mpr ⟨fun e he => ?_, h⟩
      rcases List.mem_cons.mp he with rfl | he
      · exact hlt
      · exact Std.lt_trans hlt (hhead e he)
    · split
      · rename_i hlt
        refine List.pairwise_cons.mpr ⟨fun e he => ?_, ih hrest⟩
        rcases mem_insertEntry he with hk | ⟨e', he', hk⟩
        · exact hk ▸ hlt
        · exact hk ▸ hhead e' he'
      · exact List.pairwise_cons.mpr ⟨hhead, hrest⟩

end Entries

/-! ## Maps -/

variable {κ ν μ : Type} [LT κ]

def empty : SortedMap κ ν := ⟨[], List.Pairwise.nil⟩

instance : Inhabited (SortedMap κ ν) := ⟨empty⟩

instance : EmptyCollection (SortedMap κ ν) := ⟨empty⟩

theorem eq_of_entries_eq {a b : SortedMap κ ν} (h : a.entries = b.entries) : a = b := by
  cases a
  cases b
  cases h
  rfl

instance [DecidableEq κ] [DecidableEq ν] : DecidableEq (SortedMap κ ν) := fun a b =>
  if h : a.entries = b.entries then isTrue (eq_of_entries_eq h)
  else isFalse (fun e => h (congrArg entries e))

/-- The bindings by ascending key. -/
def toList (m : SortedMap κ ν) : List (κ × ν) := m.entries

def keys (m : SortedMap κ ν) : List κ := m.entries.map Prod.fst

def values (m : SortedMap κ ν) : List ν := m.entries.map Prod.snd

def size (m : SortedMap κ ν) : Nat := m.entries.length

def isEmpty (m : SortedMap κ ν) : Bool := m.entries.isEmpty

def map (f : κ → ν → μ) (m : SortedMap κ ν) : SortedMap κ μ where
  entries := m.entries.map fun e => (e.1, f e.1 e.2)
  sorted := List.pairwise_map.mpr m.sorted

variable [DecidableLT κ]

def find? (m : SortedMap κ ν) (k : κ) : Option ν := valueAt? k m.entries

def contains (m : SortedMap κ ν) (k : κ) : Bool := (m.find? k).isSome

def erase (m : SortedMap κ ν) (k : κ) : SortedMap κ ν where
  entries := eraseEntry k m.entries
  sorted := m.sorted.sublist (eraseEntry_sublist k m.entries)

variable [LE κ] [Std.IsLinearOrder κ] [Std.LawfulOrderLT κ]

def insert (m : SortedMap κ ν) (k : κ) (v : ν) : SortedMap κ ν where
  entries := insertEntry k v m.entries
  sorted := sorted_insertEntry k v m.sorted

/-- The map of a list of bindings, of which the last one for a key counts. -/
def ofList (l : List (κ × ν)) : SortedMap κ ν := l.foldl (fun m e => m.insert e.1 e.2) empty

end SortedMap
end HomeSync
