import Mathlib.Data.List.Perm.Basic
import HomeSync.Device.Metadata
import HomeSync.Proofs.Json.Literals

/-
A record is read from its named members alone.

What is asked of an object is the members of one name at a time, and each of the names
may come once.  So neither the order of the members counts nor what else there is, as
long as every name is a text.
-/
namespace HomeSync

/-! ## Lists of results -/

theorem mapM_eq_some_iff {α β : Type} {f : α → Option β} {l : List α} {r : List β} :
    l.mapM f = some r ↔ List.Forall₂ (fun a b => f a = some b) l r := by
  induction l generalizing r with
  | nil => simp [eq_comm]
  | cons a rest ih =>
    simp only [List.mapM_cons, Option.bind_eq_bind, Option.bind_eq_some_iff, Option.pure_def,
      Option.some.injEq, ih, List.forall₂_cons_left_iff]
    constructor
    · rintro ⟨b, hb, bs, hbs, rfl⟩
      exact ⟨b, bs, hb, hbs, rfl⟩
    · rintro ⟨b, bs, hb, hbs, rfl⟩
      exact ⟨b, hb, bs, hbs, rfl⟩

theorem mapM_perm {α β : Type} {f : α → Option β} {l l' : List α} {r : List β}
    (hl : l'.Perm l) (h : l.mapM f = some r) : ∃ r', l'.mapM f = some r' ∧ r'.Perm r := by
  obtain ⟨r', hr', hperm⟩ := List.perm_comp_forall₂ hl (mapM_eq_some_iff.mp h)
  exact ⟨r', mapM_eq_some_iff.mpr hr', hperm⟩

theorem mapM_perm_eq_none {α β : Type} {f : α → Option β} {l l' : List α}
    (hl : l'.Perm l) (h : l.mapM f = none) : l'.mapM f = none := by
  cases hr : l'.mapM f with
  | none => rfl
  | some r =>
    obtain ⟨r', hr', -⟩ := mapM_perm hl.symm hr
    simp [h] at hr'

namespace Json

/-! ## Members by name -/

def named? (m : List UInt8 × Json) : Option (String × Json) := (textOf? m.1).map (·, m.2)

/-- The values of the names, none of which may come twice. -/
def select? (names : List String) (named : List (String × Json)) : Option (List (Option Json)) :=
  if names.all fun name => (named.filter (·.1 == name)).length ≤ 1 then
    some (names.map fun name => named.lookup name)
  else none

theorem fields?_object (names : List String) (members : List (List UInt8 × Json)) :
    (object members).fields? names = (members.mapM named?).bind (select? names) := rfl

theorem lookup_eq_head?_filter (named : List (String × Json)) (name : String) :
    named.lookup name = (named.filter (·.1 == name)).head?.map Prod.snd := by
  induction named with
  | nil => rfl
  | cons m rest ih =>
    obtain ⟨name', v⟩ := m
    rw [List.lookup_cons, List.filter_cons, ih, Bool.beq_comm]
    cases name' == name <;> rfl

theorem eq_of_perm_of_length_le_one {α : Type} {l l' : List α} (h : l'.Perm l)
    (hlength : l.length ≤ 1) : l' = l := by
  match l, hlength with
  | [], _ => exact h.eq_nil
  | [a], _ => exact h.eq_singleton

/-- No name stands for two members. -/
def Once (names : List String) (named : List (String × Json)) : Prop :=
  ∀ name ∈ names, (named.filter (·.1 == name)).length ≤ 1

theorem select?_of_once {names : List String} {named : List (String × Json)}
    (h : Once names named) :
    select? names named = some (names.map fun name => named.lookup name) := by
  rw [select?, if_pos]
  simpa only [Once, List.all_eq_true, decide_eq_true_eq] using h

theorem select?_of_not_once {names : List String} {named : List (String × Json)}
    (h : ¬ Once names named) : select? names named = none := by
  rw [select?, if_neg]
  simpa only [Once, List.all_eq_true, decide_eq_true_eq] using h

theorem select?_of_perm {names : List String} {named named' : List (String × Json)}
    (h : ∀ name ∈ names,
      (named'.filter (·.1 == name)).Perm (named.filter (·.1 == name))) :
    select? names named' = select? names named := by
  by_cases honce : Once names named
  · have hsame : ∀ name ∈ names, named'.filter (·.1 == name) = named.filter (·.1 == name) :=
      fun name hname => eq_of_perm_of_length_le_one (h name hname) (honce name hname)
    have honce' : Once names named' := by
      intro name hname
      rw [hsame name hname]
      exact honce name hname
    rw [select?_of_once honce, select?_of_once honce']
    congr 1
    apply List.map_congr_left
    intro name hname
    rw [lookup_eq_head?_filter, lookup_eq_head?_filter, hsame name hname]
  · have honce' : ¬ Once names named' := by
      intro honce'
      apply honce
      intro name hname
      rw [← (h name hname).length_eq]
      exact honce' name hname
    rw [select?_of_not_once honce, select?_of_not_once honce']

/-! ## Members with other values -/

/-- The values may differ as their names allow. -/
def Revalued (R : String → Json → Json → Prop) (m m' : List UInt8 × Json) : Prop :=
  m'.1 = m.1 ∧ ∀ name, textOf? m.1 = some name → R name m.2 m'.2

theorem eq_of_rel {R : Json → Json → Prop} {value value' : Option Json}
    (h : Option.Rel R value value') (hR : ∀ {v v'}, R v v' → v' = v) : value' = value := by
  cases h with
  | none => rfl
  | some hv => rw [hR hv]

theorem mapM_revalued {R : String → Json → Json → Prop}
    {members members' : List (List UInt8 × Json)}
    (h : List.Forall₂ (Revalued R) members members') :
    (members.mapM named? = none ∧ members'.mapM named? = none) ∨
      ∃ named named', members.mapM named? = some named ∧ members'.mapM named? = some named' ∧
        List.Forall₂ (fun m m' => m'.1 = m.1 ∧ R m.1 m.2 m'.2) named named' := by
  induction h with
  | nil => exact .inr ⟨[], [], rfl, rfl, .nil⟩
  | @cons m m' rest rest' hm _ ih =>
    simp only [List.mapM_cons, named?, hm.1]
    cases htext : textOf? m.1 with
    | none => exact .inl ⟨rfl, rfl⟩
    | some name =>
      obtain ⟨hnone, hnone'⟩ | ⟨named, named', hnamed, hnamed', hrel⟩ := ih
      · rw [hnone, hnone']
        exact .inl ⟨rfl, rfl⟩
      · rw [hnamed, hnamed']
        exact .inr ⟨(name, m.2) :: named, (name, m'.2) :: named', rfl, rfl,
          .cons ⟨rfl, hm.2 name htext⟩ hrel⟩

theorem length_filter_revalued {R : String → Json → Json → Prop}
    {named named' : List (String × Json)}
    (h : List.Forall₂ (fun m m' => m'.1 = m.1 ∧ R m.1 m.2 m'.2) named named') (name : String) :
    (named'.filter (·.1 == name)).length = (named.filter (·.1 == name)).length := by
  induction h with
  | nil => rfl
  | cons hm _ ih =>
    rw [List.filter_cons, List.filter_cons, hm.1]
    split
    · rw [List.length_cons, List.length_cons, ih]
    · exact ih

theorem lookup_revalued {R : String → Json → Json → Prop} {named named' : List (String × Json)}
    (h : List.Forall₂ (fun m m' => m'.1 = m.1 ∧ R m.1 m.2 m'.2) named named') (name : String) :
    Option.Rel (R name) (named.lookup name) (named'.lookup name) := by
  induction h with
  | nil => exact .none
  | @cons m m' _ _ hm _ ih =>
    obtain ⟨name', v⟩ := m
    obtain ⟨name'', v'⟩ := m'
    obtain ⟨rfl, hv⟩ := hm
    rw [List.lookup_cons, List.lookup_cons]
    cases hname : name == name'' with
    | false => exact ih
    | true => exact .some (eq_of_beq hname ▸ hv)

/-- Other values of the members are other values of the fields. -/
theorem fields?_revalued {R : String → Json → Json → Prop} (names : List String)
    {members members' : List (List UInt8 × Json)}
    (h : List.Forall₂ (Revalued R) members members') :
    ((object members).fields? names = none ∧ (object members').fields? names = none) ∨
      ∃ value value' : String → Option Json,
        (object members).fields? names = some (names.map value) ∧
        (object members').fields? names = some (names.map value') ∧
        ∀ name, Option.Rel (R name) (value name) (value' name) := by
  rw [fields?_object, fields?_object]
  obtain ⟨hnone, hnone'⟩ | ⟨named, named', hnamed, hnamed', hrel⟩ := mapM_revalued h
  · rw [hnone, hnone']
    exact .inl ⟨rfl, rfl⟩
  · have hiff : Once names named' ↔ Once names named := by
      simp only [Once, length_filter_revalued hrel]
    rw [hnamed, hnamed', Option.bind_some, Option.bind_some]
    by_cases honce : Once names named
    · rw [select?_of_once honce, select?_of_once (hiff.mpr honce)]
      exact .inr ⟨_, _, rfl, rfl, lookup_revalued hrel⟩
    · rw [select?_of_not_once honce, select?_of_not_once fun h => honce (hiff.mp h)]
      exact .inl ⟨rfl, rfl⟩

/-! ## Members that have none of the names -/

/-- The name is a text, but none of the names. -/
def Stranger (names : List String) (m : List UInt8 × Json) : Prop :=
  ∃ name, textOf? m.1 = some name ∧ name ∉ names

theorem stranger_member {names : List String} {name : String} {v : Json} (h : name ∉ names) :
    Stranger names (member name v) := ⟨name, textOf?_literal name, h⟩

/-- The members in any order, with strangers among them.  Those that have none of the names
already may have other values. -/
def Mixed (names : List String) (members members' : List (List UInt8 × Json)) : Prop :=
  ∃ kept strangers, List.Forall₂ (Revalued fun name v v' => name ∈ names → v' = v) members kept ∧
    (∀ m ∈ strangers, Stranger names m) ∧ members'.Perm (kept ++ strangers)

theorem mixed_of_perm {names : List String} {members members' : List (List UInt8 × Json)}
    (strangers : List (List UInt8 × Json)) (hstrangers : ∀ m ∈ strangers, Stranger names m)
    (h : members'.Perm (members ++ strangers)) :
    Mixed names members members' :=
  ⟨members, strangers, List.forall₂_same.mpr fun _ _ => ⟨rfl, fun _ _ _ => rfl⟩, hstrangers, h⟩

theorem mapM_strangers {names : List String} {strangers : List (List UInt8 × Json)}
    (h : ∀ m ∈ strangers, Stranger names m) :
    ∃ named, strangers.mapM named? = some named ∧ ∀ m ∈ named, m.1 ∉ names := by
  induction strangers with
  | nil => exact ⟨[], rfl, by simp⟩
  | cons m rest ih =>
    obtain ⟨⟨name, htext, hname⟩, hrest⟩ := List.forall_mem_cons.mp h
    obtain ⟨named, hnamed, hall⟩ := ih hrest
    refine ⟨(name, m.2) :: named, ?_, List.forall_mem_cons.mpr ⟨hname, hall⟩⟩
    rw [List.mapM_cons, named?, htext, hnamed]
    rfl

theorem filter_strangers {names : List String} {named : List (String × Json)}
    (h : ∀ m ∈ named, m.1 ∉ names) {name : String} (hname : name ∈ names) :
    named.filter (·.1 == name) = [] := by
  rw [List.filter_eq_nil_iff]
  intro m hm heq
  exact h m hm (eq_of_beq heq ▸ hname)

theorem fields?_strangers {names : List String}
    {members strangers members' : List (List UInt8 × Json)}
    (hstrangers : ∀ m ∈ strangers, Stranger names m)
    (hperm : members'.Perm (members ++ strangers)) :
    (object members').fields? names = (object members).fields? names := by
  obtain ⟨others, hothers, hnames⟩ := mapM_strangers hstrangers
  rw [fields?_object, fields?_object]
  cases hnamed : members.mapM named? with
  | none =>
    have hboth : (members ++ strangers).mapM named? = none := by
      rw [List.mapM_append, hnamed]
      rfl
    rw [mapM_perm_eq_none hperm hboth]
  | some named =>
    -- the strangers are read too, but no name asks for them
    have hboth : (members ++ strangers).mapM named? = some (named ++ others) := by
      rw [List.mapM_append, hnamed, hothers]
      rfl
    obtain ⟨named', hnamed', hperm'⟩ := mapM_perm hperm hboth
    rw [hnamed', Option.bind_some, Option.bind_some]
    apply select?_of_perm
    intro name hname
    have hfilter := hperm'.filter (·.1 == name)
    rwa [List.filter_append, filter_strangers hnames hname, List.append_nil] at hfilter

/-- Strangers and the order of the members change nothing. -/
theorem fields?_mixed {names : List String} {members members' : List (List UInt8 × Json)}
    (h : Mixed names members members') :
    (object members').fields? names = (object members).fields? names := by
  obtain ⟨kept, strangers, hkept, hstrangers, hperm⟩ := h
  rw [fields?_strangers hstrangers hperm]
  obtain ⟨hnone, hnone'⟩ | ⟨value, value', hvalue, hvalue', hrel⟩ := fields?_revalued names hkept
  · rw [hnone, hnone']
  · rw [hvalue, hvalue']
    congr 1
    apply List.map_congr_left
    exact fun name hname => eq_of_rel (hrel name) fun h => h hname

end Json
end HomeSync
