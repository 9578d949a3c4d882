import HomeSync.Proofs.Bus.Levels

/-
What a filter means, place by place.

The bus compares a filter with a topic in one pass from the front and stops at the first
`#`.  Read as a whole, a filter names for each place before its first `#` a level or any
level at all, and the `#`, if there is one, leaves open how many levels follow.
`accepts_iff_places` says that the pass decides this reading.  Both sides are taken apart
level by level, where they agree for the same reason.
-/
namespace HomeSync

namespace Topic

theorem levels_eq_splitOn (s : String) : levels s = s.toList.splitOn '/' := by
  have hsplit : ∀ l : List Char, splitLevels l = l.splitOn '/' := by
    intro l
    induction l with
    | nil => rfl
    | cons c rest ih =>
      rw [List.splitOn_eq_splitOnP, List.splitOnP_cons_eq_if_modifyHead,
        ← List.splitOn_eq_splitOnP, ← ih, splitLevels]
      by_cases hc : c = '/'
      · rw [if_pos hc, if_pos (beq_iff_eq.mpr hc)]
      · rw [if_neg hc, if_neg (fun heq => hc (beq_iff_eq.mp heq))]
        cases hrest : splitLevels rest with
        | nil => exact absurd hrest (splitLevels_ne_nil rest)
        | cons level more => rfl
  exact hsplit s.toList

/-! ## Places -/

/-- At each of the first `n` places the filter has `+` or the level of the topic. -/
def AgreeUpTo (n : Nat) (filter topic : List (List Char)) : Prop :=
  ∀ i < n, filter[i]? = some ['+'] ∨ filter[i]? = topic[i]?

/-- The filter names every level of the topic. -/
def Spells (filter topic : List (List Char)) : Prop :=
  ['#'] ∉ filter ∧ filter.length = topic.length ∧ AgreeUpTo filter.length filter topic

/-- The filter names the first levels of the topic and leaves the others open. -/
def Opens (filter topic : List (List Char)) : Prop :=
  ∃ k, filter[k]? = some ['#'] ∧ ['#'] ∉ filter.take k ∧ k ≤ topic.length ∧
    AgreeUpTo k filter topic

variable {f t : List Char} {filter topic : List (List Char)}

theorem agreeUpTo_zero : AgreeUpTo 0 filter topic := fun i hi => absurd hi (Nat.not_lt_zero i)

theorem agreeUpTo_succ_cons {n : Nat} :
    AgreeUpTo (n + 1) (f :: filter) (t :: topic) ↔
      (f = ['+'] ∨ f = t) ∧ AgreeUpTo n filter topic := by
  constructor
  · intro h
    refine ⟨?_, fun i hi => ?_⟩
    · have hfirst := h 0 (Nat.succ_pos n)
      simpa only [List.getElem?_cons_zero, Option.some.injEq] using hfirst
    · have hnext := h (i + 1) (Nat.succ_lt_succ hi)
      simpa only [List.getElem?_cons_succ] using hnext
  · rintro ⟨hfirst, hrest⟩ i hi
    cases i with
    | zero => simpa only [List.getElem?_cons_zero, Option.some.injEq] using hfirst
    | succ i =>
      simpa only [List.getElem?_cons_succ] using hrest i (Nat.lt_of_succ_lt_succ hi)

theorem spells_cons_cons (hf : f ≠ ['#']) :
    Spells (f :: filter) (t :: topic) ↔ (f = ['+'] ∨ f = t) ∧ Spells filter topic := by
  rw [Spells, Spells, List.length_cons, List.length_cons, agreeUpTo_succ_cons, List.mem_cons,
    not_or, Nat.add_right_cancel_iff]
  constructor
  · rintro ⟨⟨-, hnone⟩, hlength, hfirst, hrest⟩
    exact ⟨hfirst, hnone, hlength, hrest⟩
  · rintro ⟨hfirst, hnone, hlength, hrest⟩
    exact ⟨⟨Ne.symm hf, hnone⟩, hlength, hfirst, hrest⟩

theorem opens_of_head : Opens (['#'] :: filter) topic :=
  ⟨0, rfl, by simp, Nat.zero_le _, agreeUpTo_zero⟩

theorem opens_cons_cons (hf : f ≠ ['#']) :
    Opens (f :: filter) (t :: topic) ↔ (f = ['+'] ∨ f = t) ∧ Opens filter topic := by
  constructor
  · rintro ⟨k, hk, hnone, hlength, hagree⟩
    cases k with
    | zero => exact absurd (Option.some.inj hk) hf
    | succ k =>
      obtain ⟨hfirst, hrest⟩ := agreeUpTo_succ_cons.mp hagree
      rw [List.take_succ_cons, List.mem_cons, not_or] at hnone
      exact ⟨hfirst, k, hk, hnone.2, Nat.le_of_succ_le_succ hlength, hrest⟩
  · rintro ⟨hfirst, k, hk, hnone, hlength, hrest⟩
    refine ⟨k + 1, hk, ?_, Nat.succ_le_succ hlength, agreeUpTo_succ_cons.mpr ⟨hfirst, hrest⟩⟩
    rw [List.take_succ_cons, List.mem_cons, not_or]
    exact ⟨Ne.symm hf, hnone⟩

/-! ## The pass over the levels -/

theorem levelsMatch_cons_cons (hf : f ≠ ['#']) :
    levelsMatch (f :: filter) (t :: topic) = true ↔
      (f = ['+'] ∨ f = t) ∧ levelsMatch filter topic = true := by
  rw [levelsMatch, if_neg hf]
  by_cases hone : f = ['+']
  · rw [if_pos hone]
    exact ⟨fun h => ⟨Or.inl hone, h⟩, fun h => h.2⟩
  · rw [if_neg hone, Bool.and_eq_true, beq_iff_eq]
    exact ⟨fun h => ⟨Or.inr h.1, h.2⟩, fun h => ⟨h.1.resolve_left hone, h.2⟩⟩

/-- By induction on the filter.  A filter whose first level is `#` is open at once, any other
one loses its first level together with the topic. -/
theorem levelsMatch_iff (filter topic : List (List Char)) :
    levelsMatch filter topic = true ↔ Spells filter topic ∨ Opens filter topic := by
  induction filter generalizing topic with
  | nil =>
    have hnone : ¬ Opens [] topic := fun ⟨k, hk, _⟩ => absurd hk (by simp)
    cases topic with
    | nil => exact ⟨fun _ => Or.inl ⟨by simp, rfl, agreeUpTo_zero⟩, fun _ => rfl⟩
    | cons t topic =>
      have hlonger : ¬ Spells [] (t :: topic) := fun ⟨_, hlength, _⟩ => absurd hlength (by simp)
      exact ⟨fun h => absurd h (by simp [levelsMatch]), fun h => h.elim
        (fun h => absurd h hlonger) (fun h => absurd h hnone)⟩
  | cons f filter ih =>
    by_cases hf : f = ['#']
    · have hopen : Opens (f :: filter) topic := hf ▸ opens_of_head
      have hmatch : levelsMatch (f :: filter) topic = true := by
        cases topic with
        | nil => exact beq_iff_eq.mpr hf
        | cons t topic => rw [levelsMatch, if_pos hf]
      exact ⟨fun _ => Or.inr hopen, fun _ => hmatch⟩
    · cases topic with
      | nil =>
        rw [levelsMatch, beq_iff_eq]
        refine ⟨fun h => absurd h hf, fun h => ?_⟩
        rcases h with ⟨-, hlength, -⟩ | ⟨k, hk, -, hlength, -⟩
        · exact absurd hlength (by simp)
        · obtain rfl : k = 0 := Nat.le_zero.mp hlength
          exact Option.some.inj hk
      | cons t topic =>
        rw [levelsMatch_cons_cons hf, ih, spells_cons_cons hf, opens_cons_cons hf, ← and_or_left]

/-- A filter accepts the topics that it spells and those that it opens to.  In particular a
filter without wildcards accepts itself only, and one that ends in `#` accepts what lies
below the levels before it, and these levels alone. -/
theorem accepts_iff_places (filter topic : String) :
    (levels filter = filter.toList.splitOn '/' ∧ levels topic = topic.toList.splitOn '/') ∧
      (accepts filter topic = true ↔
        (['#'] ∉ levels filter ∧ (levels filter).length = (levels topic).length ∧
          AgreeUpTo (levels filter).length (levels filter) (levels topic)) ∨
        ∃ k, (levels filter)[k]? = some ['#'] ∧ ['#'] ∉ (levels filter).take k ∧
          k ≤ (levels topic).length ∧ AgreeUpTo k (levels filter) (levels topic)) ∧
      (Plain filter → (accepts filter topic = true ↔ filter = topic)) ∧
      accepts (filter ++ "/#") (filter ++ "/" ++ topic) = true ∧
      accepts (filter ++ "/#") filter = true := by
  have hopen : filter ++ "/#" = child filter "#" := by
    rw [child, String.append_assoc]
    rfl
  have hself : accepts (child filter "#") filter = true := by
    have hmatch := levelsMatch_append (levels filter) []
    rw [List.append_nil] at hmatch
    rw [accepts, levels_child]
    exact hmatch
  rw [hopen]
  exact ⟨⟨levels_eq_splitOn filter, levels_eq_splitOn topic⟩,
    levelsMatch_iff (levels filter) (levels topic), accepts_iff_of_plain,
    accepts_child filter topic, hself⟩

theorem accepts_iff_places_plain :
    Plain "hall//lamp+" ∧
      (accepts "hall//lamp+" "hall//lamp" = true ↔ "hall//lamp+" = "hall//lamp") :=
  ⟨by decide, (accepts_iff_places "hall//lamp+" "hall//lamp").2.2.1 (by decide)⟩

end Topic
end HomeSync
