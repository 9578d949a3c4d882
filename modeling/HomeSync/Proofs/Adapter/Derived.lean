import HomeSync.Proofs.Adapter.Built
import HomeSync.Proofs.Adapter.Layout
import HomeSync.Proofs.Bus.Levels
import HomeSync.Proofs.Device.Codec

/-
The topics that features get if they bring none along.

Such a topic is that of the device, with the name of the feature and one more word below
it.  A device topic has any number of levels, but a name that the tables know has only one,
and it is no wildcard in any letter case.  So the levels of a derived topic tell the device
and the feature, and as a filter it accepts nothing but itself.
-/
namespace HomeSync

/-! ## Known names are single levels -/

namespace Topic

/-- Whether a character means something in a topic or a filter. -/
def isMark (c : Char) : Bool := c == '/' || c == '+' || c == '#'

theorem foldChar_of_isMark {c : Char} (h : isMark c = true) : Text.foldChar c = c := by
  simp only [isMark, Bool.or_eq_true, beq_iff_eq] at h
  rcases h with (rfl | rfl) | rfl <;> rfl

end Topic

namespace Capability

/-- The lower-case names of features, the aliases included. -/
def words : List String := table.map (·.name) ++ aliases.map (·.1)

theorem fold_mem_words {name : String} {c : Capability} (h : find? name = some c) :
    Text.fold name ∈ words := by
  have hname : c.name = canonicalName name := by simpa using List.find?_some h
  rw [canonicalName] at hname
  cases halias : aliases.find? (·.1 == Text.fold name) with
  | some a =>
    have hsame : a.1 = Text.fold name := by simpa using List.find?_some halias
    rw [← hsame]
    exact List.mem_append_right _ (List.mem_map_of_mem (List.mem_of_find?_eq_some halias))
  | none =>
    rw [halias] at hname
    have hname : c.name = Text.fold name := hname
    rw [← hname]
    exact List.mem_append_left _ (List.mem_map_of_mem (List.mem_of_find?_eq_some h))

/-- Lower-casing leaves the marks of filters alone, and no word has any. -/
theorem isMark_of_find? {name : String} {c : Capability} (h : find? name = some c) {mark : Char}
    (hmem : mark ∈ name.toList) : Topic.isMark mark = false := by
  have hwords : (words.all fun word => word.toList.all fun c => !Topic.isMark c) = true := by
    decide +kernel
  have hfolded : Text.foldChar mark ∈ (Text.fold name).toList := by
    rw [Text.fold, String.toList_ofList]
    exact List.mem_map_of_mem hmem
  have hword := List.all_eq_true.mp hwords _ (fold_mem_words h)
  have hnone := List.all_eq_true.mp hword _ hfolded
  by_contra hmark
  rw [Topic.foldChar_of_isMark (Bool.of_not_eq_false hmark), Bool.not_eq_true'] at hnone
  exact hmark hnone

end Capability

namespace Topic

theorem splitLevels_of_not_mem {l : List Char} (h : '/' ∉ l) : splitLevels l = [l] := by
  induction l with
  | nil => rfl
  | cons c rest ih =>
    obtain ⟨hc, hrest⟩ := not_or.mp (mt List.mem_cons.mpr h)
    rw [splitLevels, if_neg (Ne.symm hc), ih hrest]

theorem below_eq_child (topic name : String) {tail last : String} (h : "/" ++ last = tail) :
    topic ++ "/" ++ name ++ tail = child (child topic name) last := by
  rw [child, child, String.append_assoc, String.append_assoc, ← h]
  simp only [String.append_assoc]

end Topic

namespace Device

/-- The name of a feature that is shown is what its characteristic was found by. -/
theorem find?_name_of_mem_bindings {d : Device} (h : d.Fitted) {b : Binding}
    (hb : b ∈ d.bindings) : Capability.find? b.feature.name = some b.capability := by
  rw [bindings] at hb
  split at hb
  · obtain ⟨e, he, hmap⟩ := List.mem_filterMap.mp ((Binding.firsts_ofFeatures _).order.subset hb)
    obtain ⟨c, hc, rfl⟩ := Option.map_eq_some_iff.mp hmap
    have hattached := h e.1 e.2 (SortedMap.find?_eq_some_iff.mpr he)
    have hname : e.2.name = e.1 := by
      rw [← hattached]
      rfl
    dsimp only
    rw [hname]
    exact hc
  · exact absurd hb List.not_mem_nil

end Device

/-! ## What the installed accessories follow -/

namespace Hub

/-- The features of the installed accessories brought no topic along to report on, and the
topics of their devices have no wildcards. -/
def Derived (h : Hub) : Prop :=
  ∀ t i, h.installed.find? t = some i → Topic.Plain t ∧
    ∀ b ∈ i.bindings, ∃ raw : Feature, raw.getTopic = "" ∧
      b.feature = raw.attach t b.feature.name

/-- The characteristics of the installed accessories are those that the names of their
features mean. -/
def Named (h : Hub) : Prop :=
  ∀ t i, h.installed.find? t = some i → ∀ b ∈ i.bindings,
    Capability.find? b.feature.name = some b.capability

theorem named_of_built {h : Hub} (hb : h.Built Device.Fitted) : h.Named := by
  intro t i hfind b hmem
  obtain ⟨d, hd, -, hbindings, -⟩ := hb t i hfind
  rw [hbindings] at hmem
  exact Device.find?_name_of_mem_bindings hd hmem

variable {h : Hub} {t : String} {i : Installed} {b : Binding}

theorem getTopic_of_derived (hd : h.Derived) (hfind : h.installed.find? t = some i)
    (hb : b ∈ i.bindings) : b.feature.getTopic = t ++ "/" ++ b.feature.name ++ "/get" := by
  obtain ⟨raw, hraw, heq⟩ := (hd t i hfind).2 b hb
  conv_lhs => rw [heq, Feature.attach]
  exact if_pos (by rw [hraw]; rfl)

theorem levels_getTopic (hd : h.Derived) (hn : h.Named) (hfind : h.installed.find? t = some i)
    (hb : b ∈ i.bindings) :
    Topic.levels b.feature.getTopic =
      Topic.levels t ++ [b.feature.name.toList] ++ [['g', 'e', 't']] := by
  have hname : Topic.levels b.feature.name = [b.feature.name.toList] :=
    Topic.splitLevels_of_not_mem fun hmem =>
      absurd (Capability.isMark_of_find? (hn t i hfind b hb) hmem) (by decide)
  have htail : "/" ++ "get" = "/get" := by decide
  rw [getTopic_of_derived hd hfind hb, Topic.below_eq_child t _ htail, Topic.levels_child,
    Topic.levels_child, hname]
  rfl

theorem plain_getTopic (hd : h.Derived) (hn : h.Named) (hfind : h.installed.find? t = some i)
    (hb : b ∈ i.bindings) : Topic.Plain b.feature.getTopic := by
  have hwild : ∀ mark, Topic.isMark mark = true → b.feature.name.toList ≠ [mark] := by
    intro mark hmark heq
    have hmem : mark ∈ b.feature.name.toList := by
      rw [heq]
      exact List.mem_singleton_self mark
    rw [Capability.isMark_of_find? (hn t i hfind b hb) hmem] at hmark
    exact Bool.false_ne_true hmark
  intro level hlevel
  rw [levels_getTopic hd hn hfind hb] at hlevel
  simp only [List.mem_append, List.mem_singleton] at hlevel
  rcases hlevel with (hlevel | rfl) | rfl
  · exact (hd t i hfind).1 level hlevel
  · exact ⟨hwild '+' rfl, hwild '#' rfl⟩
  · decide

/-- A derived topic tells the device that it was derived for. -/
theorem device_of_getTopic (hd : h.Derived) (hn : h.Named) (hfind : h.installed.find? t = some i)
    (hb : b ∈ i.bindings) {t' : String} {i' : Installed} (hfind' : h.installed.find? t' = some i')
    {b' : Binding} (hb' : b' ∈ i'.bindings) (heq : b.feature.getTopic = b'.feature.getTopic) :
    t = t' := by
  have hlevels := congrArg Topic.levels heq
  rw [levels_getTopic hd hn hfind hb, levels_getTopic hd hn hfind' hb'] at hlevels
  have hrest := List.append_inj_left' hlevels rfl
  exact Topic.levels_inj (List.append_inj_left' hrest rfl)

/-- Requests are made elsewhere. -/
theorem getTopic_ne_request (hd : h.Derived) (hn : h.Named)
    (hfind : h.installed.find? t = some i) (hb : b ∈ i.bindings) (topic name : String) :
    b.feature.getTopic ≠ topic ++ "/" ++ name ++ "/set" := by
  intro heq
  have htail : "/" ++ "set" = "/set" := by decide
  have hlevels := congrArg Topic.levels heq
  rw [levels_getTopic hd hn hfind hb, Topic.below_eq_child topic name htail,
    Topic.levels_child] at hlevels
  exact absurd (List.append_inj_right' hlevels rfl) (by decide)

end Hub
end HomeSync
