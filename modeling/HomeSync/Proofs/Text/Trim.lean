import HomeSync.Text.Blank
import Mathlib.Data.List.DropRight

/-
What trimming leaves.

Blanks go from both ends and from nowhere else, so a text without blanks loses only what
was put around it, and a trimmed text loses nothing.
-/
namespace HomeSync
namespace Text

theorem trimChars_eq_rdropWhile (cs : List Char) :
    trimChars cs = (cs.dropWhile isBlank).rdropWhile isBlank := rfl

theorem trimChars_of_padded {before cs after : List Char} (hbefore : ∀ c ∈ before, isBlank c = true)
    (hafter : ∀ c ∈ after, isBlank c = true) (hcs : ∀ c ∈ cs, isBlank c = false) :
    trimChars (before ++ cs ++ after) = cs := by
  have hdrop : ∀ l : List Char, (∀ c ∈ l, isBlank c = true) → l.dropWhile isBlank = [] :=
    fun l hl => List.dropWhile_eq_nil_iff.mpr hl
  have hkeep : ∀ l : List Char, (∀ c ∈ l, isBlank c = false) → l.dropWhile isBlank = l := by
    intro l hl
    cases l with
    | nil => rfl
    | cons c rest => exact List.dropWhile_cons_of_neg (by simp [hl c List.mem_cons_self])
  rw [trimChars, List.append_assoc, List.dropWhile_append_of_pos hbefore]
  cases cs with
  | nil =>
    rw [List.nil_append, hdrop after hafter]
    rfl
  | cons c rest =>
    have hfirst : (c :: rest ++ after).dropWhile isBlank = c :: rest ++ after :=
      List.dropWhile_cons_of_neg (by simp [hcs c List.mem_cons_self])
    rw [hfirst, List.reverse_append,
      List.dropWhile_append_of_pos fun c hc => hafter c (List.mem_reverse.mp hc),
      hkeep _ fun c hc => hcs c (List.mem_reverse.mp hc), List.reverse_reverse]

theorem trimChars_of_not_blank {cs : List Char} (h : ∀ c ∈ cs, isBlank c = false) :
    trimChars cs = cs := by
  have hpadded : trimChars ([] ++ cs ++ []) = cs := trimChars_of_padded (by simp) (by simp) h
  rwa [List.nil_append, List.append_nil] at hpadded

theorem trim_of_not_blank {s : String} (h : ∀ c ∈ s.toList, isBlank c = false) : trim s = s := by
  rw [trim, trimChars_of_not_blank h, String.ofList_toList]

/-- The end of a trimmed text was not blank before its front was cut, and its front still is
what it was. -/
theorem trimChars_trimChars (cs : List Char) : trimChars (trimChars cs) = trimChars cs := by
  have hfront : (trimChars cs).dropWhile isBlank = trimChars cs := by
    rw [List.dropWhile_eq_self_iff]
    intro hpos hblank
    have hlead := List.rdropWhile_prefix isBlank (l := cs.dropWhile isBlank)
    have hkept := List.dropWhile_eq_self_iff.mp (List.dropWhile_idempotent isBlank (l := cs))
      (lt_of_lt_of_le hpos hlead.length_le)
    rw [← hlead.getElem hpos] at hkept
    exact hkept hblank
  rw [trimChars_eq_rdropWhile (trimChars cs), hfront, trimChars_eq_rdropWhile,
    List.rdropWhile_idempotent]

theorem trim_trim (s : String) : trim (trim s) = trim s := by
  rw [trim, trim, String.toList_ofList, trimChars_trimChars]

end Text
end HomeSync
