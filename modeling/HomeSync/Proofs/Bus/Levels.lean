import HomeSync.Router

/-
What a router accepts and what it reads.

A router subscribes to all levels below its announce topic, and then it cuts the
topic of a device off as text.  The bus reads the announce topic as a filter, with
wildcards, and the router reads it letter by letter.  So more may be delivered than
can be read, but all that can be read is delivered.  A filter without wildcards stands
for one topic, since the levels make up the text again.
-/
namespace HomeSync

namespace Topic

theorem splitLevels_ne_nil (l : List Char) : splitLevels l ≠ [] := by
  cases l with
  | nil => simp [splitLevels]
  | cons c rest =>
    rw [splitLevels]
    split
    · simp
    · split <;> simp

theorem splitLevels_append (l l' : List Char) :
    splitLevels (l ++ '/' :: l') = splitLevels l ++ splitLevels l' := by
  induction l with
  | nil => rfl
  | cons c rest ih =>
    rw [List.cons_append, splitLevels, splitLevels, ih]
    by_cases hc : c = '/'
    · rw [if_pos hc, if_pos hc]
      rfl
    · rw [if_neg hc, if_neg hc]
      cases hrest : splitLevels rest with
      | nil => exact absurd hrest (splitLevels_ne_nil rest)
      | cons level levels => rfl

/-- The levels with `/` between them make up the text again. -/
theorem intercalate_splitLevels (l : List Char) : ['/'].intercalate (splitLevels l) = l := by
  induction l with
  | nil => rfl
  | cons c rest ih =>
    rw [splitLevels]
    cases hrest : splitLevels rest with
    | nil => exact absurd hrest (splitLevels_ne_nil rest)
    | cons level more =>
      rw [hrest] at ih
      by_cases hc : c = '/'
      · rw [if_pos hc, List.intercalate_cons_cons, ih, hc]
        rfl
      · rw [if_neg hc]
        cases more with
        | nil =>
          rw [List.intercalate_singleton] at ih ⊢
          rw [ih]
        | cons level' more =>
          rw [List.intercalate_cons_cons] at ih ⊢
          rw [List.cons_append, List.cons_append, ih]

theorem levels_inj {topic topic' : String} (h : levels topic = levels topic') :
    topic = topic' := by
  rw [levels, levels] at h
  rw [← String.toList_inj, ← intercalate_splitLevels topic.toList, h, intercalate_splitLevels]

/-- No level of the filter is a wildcard. -/
def Plain (filter : String) : Prop := ∀ level ∈ levels filter, level ≠ ['+'] ∧ level ≠ ['#']

instance (filter : String) : Decidable (Plain filter) :=
  inferInstanceAs (Decidable (∀ level ∈ levels filter, level ≠ ['+'] ∧ level ≠ ['#']))

theorem levelsMatch_iff_of_plain {filter topic : List (List Char)}
    (h : ∀ level ∈ filter, level ≠ ['+'] ∧ level ≠ ['#']) :
    levelsMatch filter topic = true ↔ filter = topic := by
  induction filter generalizing topic with
  | nil => cases topic <;> simp [levelsMatch]
  | cons level rest ih =>
    obtain ⟨hone, hall⟩ := h level List.mem_cons_self
    cases topic with
    | nil =>
      rw [levelsMatch, beq_iff_eq]
      exact ⟨fun heq => absurd heq hall, fun heq => absurd heq (by simp)⟩
    | cons level' rest' =>
      rw [levelsMatch, if_neg hall, if_neg hone, Bool.and_eq_true, beq_iff_eq, List.cons.injEq,
        ih fun level hmem => h level (List.mem_cons_of_mem _ hmem)]

/-- A filter without wildcards accepts the one topic that it is. -/
theorem accepts_iff_of_plain {filter topic : String} (h : Plain filter) :
    accepts filter topic = true ↔ filter = topic := by
  rw [accepts, levelsMatch_iff_of_plain h]
  exact ⟨levels_inj, congrArg levels⟩

theorem toList_child (parent topic : String) :
    (child parent topic).toList = parent.toList ++ ['/'] ++ topic.toList := by
  rw [child, String.toList_append, String.toList_append]
  rfl

theorem levels_child (parent topic : String) :
    levels (child parent topic) = levels parent ++ levels topic := by
  rw [levels, toList_child, List.append_assoc]
  exact splitLevels_append parent.toList topic.toList

/-- Levels match themselves, wildcards included, and `#` matches what follows. -/
theorem levelsMatch_append (lead rest : List (List Char)) :
    levelsMatch (lead ++ [['#']]) (lead ++ rest) = true := by
  induction lead with
  | nil =>
    cases rest with
    | nil => rfl
    | cons level rest => rfl
  | cons level lead ih =>
    rw [List.cons_append, List.cons_append, levelsMatch]
    split
    · rfl
    · split
      · exact ih
      · rw [beq_self_eq_true, Bool.true_and]
        exact ih

theorem accepts_child (parent topic : String) :
    accepts (child parent "#") (child parent topic) = true := by
  rw [accepts, levels_child, levels_child]
  exact levelsMatch_append (levels parent) (levels topic)

theorem below?_eq_some_iff {parent topic rest : String} :
    below? parent topic = some rest ↔ topic = child parent rest := by
  rw [below?]
  constructor
  · intro h
    obtain ⟨hlead, hrest⟩ := Option.ite_none_right_eq_some.mp h
    obtain ⟨l, hl⟩ := List.isPrefixOf_iff_prefix.mp hlead
    rw [← hl, List.drop_left, Option.some.injEq] at hrest
    rw [← String.toList_inj, toList_child, ← hrest, String.toList_ofList, hl]
  · rintro rfl
    have hlead : (parent.toList ++ ['/']).isPrefixOf (child parent rest).toList = true :=
      List.isPrefixOf_iff_prefix.mpr ⟨rest.toList, (toList_child parent rest).symm⟩
    rw [if_pos hlead, toList_child, List.drop_left, String.ofList_toList]

end Topic

namespace RouterConfig

/-- A message is an announcement if its topic lies below the announce topic and what
is left of it has two levels. -/
theorem announcement?_eq_some_iff {c : RouterConfig} {m : Message} {i : Inbound} :
    c.announcement? m = some i ↔
      ∃ topic, m.topic = Topic.child c.announce topic ∧ '/' ∈ topic.toList ∧
        i = .announce topic m.payload := by
  rw [announcement?]
  cases hbelow : Topic.below? c.announce m.topic with
  | none =>
    refine ⟨fun h => absurd h (by simp), ?_⟩
    rintro ⟨topic, htopic, -⟩
    rw [Topic.below?_eq_some_iff.mpr htopic] at hbelow
    exact absurd hbelow (by simp)
  | some topic =>
    have htopic : m.topic = Topic.child c.announce topic := Topic.below?_eq_some_iff.mp hbelow
    dsimp only
    rw [Option.ite_none_right_eq_some, Option.some.injEq, List.contains_iff_mem]
    constructor
    · rintro ⟨hlevels, rfl⟩
      exact ⟨topic, htopic, hlevels, rfl⟩
    · rintro ⟨topic', htopic', hlevels, rfl⟩
      have hsame := Topic.below?_eq_some_iff.mpr htopic'
      rw [hbelow, Option.some.injEq] at hsame
      rw [hsame]
      exact ⟨hlevels, rfl⟩

theorem accepts_of_announcement? {c : RouterConfig} {m : Message} {i : Inbound}
    (h : c.announcement? m = some i) : Topic.accepts c.announceFilter m.topic = true := by
  obtain ⟨topic, htopic, -, -⟩ := announcement?_eq_some_iff.mp h
  rw [htopic]
  exact Topic.accepts_child c.announce topic

/-- What a message is to a router: an announcement, a leave message, both in this
order or nothing. -/
def hears (c : RouterConfig) (m : Message) : List Inbound :=
  (c.announcement? m).toList ++
    if Topic.accepts c.leave m.topic then (departure? m).toList else []

end RouterConfig
end HomeSync
