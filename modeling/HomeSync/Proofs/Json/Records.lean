import HomeSync.Device.Metadata
import HomeSync.Proofs.Json.Reading

/-
Records as objects.

A record is written as an object that leaves out the fields without a value.  As long
as no two fields have one name, looking for the fields by name finds their values.
-/
namespace HomeSync
namespace Json

/-- The fields that have a value. -/
def present (fields : List (String × Option Json)) : List (String × Json) :=
  fields.filterMap fun f => f.2.map (f.1, ·)

def members (fields : List (String × Option Json)) : List (List UInt8 × Json) :=
  (present fields).map fun m => member m.1 m.2

def record (fields : List (String × Option Json)) : Json := .object (members fields)

theorem present_cons (name : String) (v : Option Json) (rest : List (String × Option Json)) :
    present ((name, v) :: rest) = (v.map (name, ·)).toList ++ present rest := by
  cases v <;> rfl

theorem members_nil : members [] = [] := rfl

theorem members_cons (name : String) (v : Option Json) (rest : List (String × Option Json)) :
    members ((name, v) :: rest) = (v.map (member name)).toList ++ members rest := by
  rw [members, present_cons, List.map_append, members]
  cases v <;> rfl

theorem mem_present {fields : List (String × Option Json)} {m : String × Json}
    (h : m ∈ present fields) : (m.1, some m.2) ∈ fields := by
  obtain ⟨f, hf, hm⟩ := List.mem_filterMap.mp h
  obtain ⟨v, hv, rfl⟩ := Option.map_eq_some_iff.mp hm
  rwa [← hv]

theorem names_present_sublist (fields : List (String × Option Json)) :
    ((present fields).map Prod.fst).Sublist (fields.map Prod.fst) := by
  induction fields with
  | nil => exact List.Sublist.refl _
  | cons f rest ih =>
    obtain ⟨name, v⟩ := f
    rw [present_cons, List.map_append, List.map_cons]
    cases v with
    | none => exact ih.cons name
    | some v => exact ih.cons_cons name

/-- A name that only one field has leads to the value of that field. -/
theorem lookup_present {fields : List (String × Option Json)}
    (hnames : (fields.map Prod.fst).Nodup) {f : String × Option Json} (hf : f ∈ fields) :
    (present fields).lookup f.1 = f.2 := by
  induction fields with
  | nil => simp at hf
  | cons g rest ih =>
    obtain ⟨name, v⟩ := g
    obtain ⟨hname, hrest⟩ := List.nodup_cons.mp hnames
    rw [present_cons]
    rcases List.mem_cons.mp hf with rfl | hmem
    · cases v with
      | some v => simp
      | none =>
        rw [Option.map_none, Option.toList_none, List.nil_append, List.lookup_eq_none_iff]
        intro m hm
        have hkey := List.mem_map_of_mem (f := Prod.fst) (mem_present hm)
        simp only [bne_iff_ne, ne_eq]
        rintro rfl
        exact hname hkey
    · have hne : (f.1 == name) = false := by
        rw [beq_eq_false_iff_ne]
        rintro rfl
        exact hname (List.mem_map.mpr ⟨f, hmem, rfl⟩)
      have hlookup := ih hrest hmem
      cases v with
      | none => exact hlookup
      | some v =>
        rw [Option.map_some, Option.toList_some, List.singleton_append, List.lookup_cons, hne]
        exact hlookup

theorem mapM_textOf?_member (l : List (String × Json)) :
    (l.map fun m => member m.1 m.2).mapM (fun m => (textOf? m.1).map (·, m.2)) = some l := by
  induction l with
  | nil => rfl
  | cons m rest ih =>
    rw [List.map_cons, List.mapM_cons, ih, member, textOf?_literal]
    rfl

/-- The fields of a record are found under their names. -/
theorem fields?_record {fields : List (String × Option Json)}
    (hnames : (fields.map Prod.fst).Nodup) :
    (record fields).fields? (fields.map Prod.fst) = some (fields.map Prod.snd) := by
  have honce : ((fields.map Prod.fst).all fun name =>
      ((present fields).filter (·.1 == name)).length ≤ 1) = true := by
    rw [List.all_eq_true]
    intro name _
    have hcount := List.nodup_iff_count.mp ((names_present_sublist fields).nodup hnames) name
    rw [List.count, List.countP_map, List.countP_eq_length_filter] at hcount
    rw [decide_eq_true_eq]
    exact hcount
  have hvalues : (fields.map Prod.fst).map (fun name => (present fields).lookup name) =
      fields.map Prod.snd := by
    rw [List.map_map]
    exact List.map_congr_left fun f hf => lookup_present hnames hf
  rw [record, fields?, members, mapM_textOf?_member, Option.bind_some, if_pos honce, hvalues]

theorem spelled_record {fields : List (String × Option Json)}
    (h : ∀ name v, (name, some v) ∈ fields → v.Spelled) : (record fields).Spelled := by
  refine .object ?_ ?_
  · intro m hm
    obtain ⟨f, -, rfl⟩ := List.mem_map.mp hm
    exact Reader.textLiteral_literal f.1
  · intro m hm
    obtain ⟨f, hf, rfl⟩ := List.mem_map.mp hm
    exact h f.1 f.2 (mem_present hf)

/-! ## The values of fields -/

/-- The field of a text that is left out when it is empty. -/
def filled (s : String) : Option Json := if s.isEmpty then none else some (ofString s)

theorem textField?_ofString (s : String) : textField? (some (ofString s)) = some s :=
  textOf?_literal s

theorem textField?_filled (s : String) : textField? (filled s) = some s := by
  rw [filled]
  split
  · rename_i h
    rw [textField?, String.isEmpty_iff.mp h]
  · exact textOf?_literal s

theorem optionalText?_map_ofString (s : Option String) :
    optionalText? (s.map ofString) = some s := by
  cases s with
  | none => rfl
  | some s =>
    show (textOf? (literal s)).map some = some (some s)
    rw [textOf?_literal, Option.map_some]

theorem optionalWord?_map_ofWord (n : Option Int64) : optionalWord? (n.map ofWord) = some n := by
  cases n with
  | none => rfl
  | some n =>
    show (wordOf? (Utf8.encode (toString n.toInt))).map some = some (some n)
    rw [wordOf?_encode_toString, Option.map_some]

end Json
end HomeSync
