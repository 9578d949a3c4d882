import HomeSync.Proofs.Binary64.Whole
import HomeSync.Proofs.Binary64.Writing
import HomeSync.Proofs.Text.Trim
import HomeSync.Value

/-
Integers that are reported in digits.

A numeral may have any number of digits.  One that fits a machine word is taken as it is.  One
that does not is rounded like a fraction, and what comes of that does not fit any of the
integer formats either, so nothing wraps around and nothing is cut off: `parse_of_reports`.
-/
namespace HomeSync

/-- The formats that hold integers. -/
def Format.isWhole : Format → Bool
  | .uint8 | .uint16 | .uint32 | .int32 => true
  | _ => false

namespace Value

/-- The decimal texts of an integer: digits, with a sign or without one. -/
inductive Numeral : List Char → ℤ → Prop
  | bare {ds : List Char} (hne : ds ≠ []) (hds : ∀ c ∈ ds, c.isDigit = true) :
      Numeral ds (Nat.ofDigitChars 10 ds 0)
  | plus {ds : List Char} (hne : ds ≠ []) (hds : ∀ c ∈ ds, c.isDigit = true) :
      Numeral ('+' :: ds) (Nat.ofDigitChars 10 ds 0)
  | minus {ds : List Char} (hne : ds ≠ []) (hds : ∀ c ∈ ds, c.isDigit = true) :
      Numeral ('-' :: ds) (-Nat.ofDigitChars 10 ds 0)

/-- A text that reports an integer: a numeral, with blanks around it or without. -/
def Reports (raw : String) (n : ℤ) : Prop :=
  ∃ before cs after : List Char, raw.toList = before ++ cs ++ after ∧
    (∀ c ∈ before, Text.isBlank c = true) ∧ (∀ c ∈ after, Text.isBlank c = true) ∧ Numeral cs n

/-! ## Numerals -/

/-- Both readers split a numeral into its sign and its digits. -/
theorem Numeral.split {cs : List Char} {n : ℤ} (h : Numeral cs n) :
    ∃ negative c ds, Binary64.splitSign cs = (negative, c :: ds) ∧
      (∀ c' ∈ c :: ds, c'.isDigit = true) ∧
      n = if negative then -(Nat.ofDigitChars 10 (c :: ds) 0 : ℤ)
        else Nat.ofDigitChars 10 (c :: ds) 0 := by
  cases h with
  | bare hne hds =>
    obtain ⟨c, ds, rfl, hc⟩ := Binary64.exists_cons_of_digits hne hds
    exact ⟨false, c, ds, Binary64.splitSign_of_digit hc, hds, rfl⟩
  | plus hne hds =>
    obtain ⟨c, ds, rfl, hc⟩ := Binary64.exists_cons_of_digits hne hds
    exact ⟨false, c, ds, rfl, hds, rfl⟩
  | minus hne hds =>
    obtain ⟨c, ds, rfl, hc⟩ := Binary64.exists_cons_of_digits hne hds
    exact ⟨true, c, ds, rfl, hds, rfl⟩

theorem Numeral.not_isBlank {cs : List Char} {n : ℤ} (h : Numeral cs n) :
    ∀ c ∈ cs, Text.isBlank c = false := by
  have hdigit : ∀ c : Char, c.isDigit = true → Text.isBlank c = false :=
    fun c hc => Binary64.not_isBlank_of_plain (Or.inl hc)
  intro c hc
  cases h with
  | bare hne hds => exact hdigit c (hds c hc)
  | plus hne hds =>
    rcases List.mem_cons.mp hc with rfl | hc
    · rfl
    · exact hdigit c (hds c hc)
  | minus hne hds =>
    rcases List.mem_cons.mp hc with rfl | hc
    · rfl
    · exact hdigit c (hds c hc)

theorem numeral_toString (n : ℤ) : Numeral (toString n).toList n := by
  have hdigits : ∀ (k : ℕ), ∀ c ∈ Nat.toDigits 10 k, c.isDigit = true :=
    fun k c hc => Binary64.isDigit_of_mem_toDigits hc
  cases n with
  | ofNat k =>
    have hbare := Numeral.bare Nat.toDigits_ne_nil (hdigits k)
    rw [Nat.ofDigitChars_ten_toDigits] at hbare
    have htext : (toString (Int.ofNat k)).toList = Nat.toDigits 10 k := by
      show (toString k).toList = _
      rw [Nat.toString_eq_ofList_toDigits, String.toList_ofList]
    rw [htext]
    exact hbare
  | negSucc k =>
    have hminus := Numeral.minus Nat.toDigits_ne_nil (hdigits (k + 1))
    rw [Nat.ofDigitChars_ten_toDigits] at hminus
    have htext : (toString (Int.negSucc k)).toList = '-' :: Nat.toDigits 10 (k + 1) := by
      show ("-" ++ toString (k + 1)).toList = _
      rw [String.toList_append, Nat.toString_eq_ofList_toDigits, String.toList_ofList,
        String.toList_ofList]
      rfl
    rw [htext]
    exact hminus

/-! ## Reading -/

theorem integer?_of_numeral {s : String} {n : ℤ} (h : Numeral s.toList n) :
    integer? s = some n := by
  obtain ⟨negative, c, ds, hsplit, hds, rfl⟩ := h.split
  rw [integer?, hsplit]
  simp only [Binary64.spanDigits_of_digits hds]
  rw [← Binary64.valueOf_digitsOf]
  rfl

/-- A numeral that is not a word is rounded to something that is out of every format. -/
theorem round?_of_numeral {s : String} {n k : ℤ} (h : Numeral s.toList n)
    (hlarge : fitsWord n = false)
    (hround : (Binary64.ofString? s).bind Binary64.round? = some k) : k ≤ -2 ^ 63 ∨ 2 ^ 63 ≤ k := by
  obtain ⟨negative, c, ds, hsplit, hds, hn⟩ := h.split
  obtain ⟨value, hvalue⟩ : ∃ value, value = Nat.ofDigitChars 10 (c :: ds) 0 := ⟨_, rfl⟩
  have hsize : 2 ^ 63 ≤ value := by
    rw [fitsWord, decide_eq_false_iff_not] at hlarge
    rw [← hvalue] at hn
    split at hn <;> omega
  have hpos : 0 < Binary64.valueOf (Binary64.digitsOf (c :: ds)) := by
    rw [Binary64.valueOf_digitsOf, ← hvalue]
    omega
  rw [Binary64.ofString?_of_digit hsplit (hds c List.mem_cons_self),
    Binary64.decimal?_whole negative hds (List.cons_ne_nil c ds), Option.bind_some] at hround
  have hrounded : Binary64.ofDecimal negative
        ((Binary64.digitsOf (c :: ds)).dropWhile (· == 0)) 0 = .infinite negative ∨
      Binary64.ofDecimal negative ((Binary64.digitsOf (c :: ds)).dropWhile (· == 0)) 0 =
        Binary64.ofFraction negative value 1 := by
    rw [hvalue, ← Binary64.valueOf_digitsOf]
    exact Binary64.ofDecimal_whole negative hpos
  rcases hrounded with hx | hx
  · rw [hx, Binary64.round?_infinite] at hround
    exact absurd hround (by simp)
  rw [hx] at hround
  rcases Binary64.ofFraction_of_le negative hsize with hx | ⟨m, e, hx, hm⟩
  · rw [hx, Binary64.round?_infinite] at hround
    exact absurd hround (by simp)
  · obtain ⟨j, hj, hk⟩ := Binary64.round?_of_le (s := negative) hm
    rw [hx, hk, Option.some.injEq] at hround
    split at hround <;> omega

theorem nearestWord?_of_fitsWord {s : String} {n : ℤ} (h : Numeral s.toList n)
    (hfits : fitsWord n = true) : nearestWord? s = some n := by
  have hword : word? s = some n := by
    rw [word?, integer?_of_numeral h, Option.filter_some, if_pos hfits]
  rw [nearestWord?, hword]

theorem nearestWord?_of_large {s : String} {n k : ℤ} (h : Numeral s.toList n)
    (hlarge : fitsWord n = false) (hk : nearestWord? s = some k) : k ≤ -2 ^ 63 ∨ 2 ^ 63 ≤ k := by
  have hword : word? s = none := by
    rw [word?, integer?_of_numeral h, Option.filter_some, hlarge]
    rfl
  rw [nearestWord?, hword] at hk
  exact round?_of_numeral h hlarge (Option.filter_eq_some_iff.mp hk).1

theorem trim_of_reports {raw : String} {n : ℤ} (h : Reports raw n) :
    Numeral (Text.trim raw).toList n := by
  obtain ⟨before, cs, after, hraw, hbefore, hafter, hcs⟩ := h
  rw [Text.trim, String.toList_ofList, hraw,
    Text.trimChars_of_padded hbefore hafter hcs.not_isBlank]
  exact hcs

theorem reports_toString (n : ℤ) : Reports (toString n) n :=
  ⟨[], (toString n).toList, [], by simp, by simp, by simp, numeral_toString n⟩

variable {format : Format}

theorem isNumeric_of_isWhole (h : format.isWhole = true) : format.isNumeric = true := by
  cases format with
  | bool | float | string => exact Bool.noConfusion h
  | uint8 | uint16 | uint32 | int32 => rfl

/-- The formats are far smaller than a word, and so small that their integers are exact. -/
theorem intRange_of_isWhole (h : format.isWhole = true) :
    -2 ^ 53 < format.intRange.1 ∧ format.intRange.2 < 2 ^ 53 := by
  cases format with
  | bool | float | string => exact Bool.noConfusion h
  | uint8 | uint16 | uint32 | int32 => exact ⟨by decide, by decide⟩

theorem parse_of_isWhole (h : format.isWhole = true) (raw : String) :
    parse format raw = (nearestWord? (Text.trim raw)).bind fun n =>
      if format.intRange.1 ≤ n ∧ n ≤ format.intRange.2 then some (.int (Int64.ofInt n))
      else none := by
  rw [parse]
  · cases nearestWord? (Text.trim raw) <;> rfl
  -- the other formats hold no integers
  all_goals
    intro hformat
    rw [hformat] at h
    exact Bool.noConfusion h

/-- A report of an integer counts if the format can hold the integer, and then it means that
integer. -/
theorem parse_of_reports (hformat : format.isWhole = true) {raw : String} {n : ℤ}
    (h : Reports raw n) :
    parse format raw =
      if format.intRange.1 ≤ n ∧ n ≤ format.intRange.2 then some (.int (Int64.ofInt n))
      else none := by
  have hrange := intRange_of_isWhole hformat
  have hnumeral := trim_of_reports h
  rw [parse_of_isWhole hformat]
  cases hfits : fitsWord n with
  | true => rw [nearestWord?_of_fitsWord hnumeral hfits, Option.bind_some]
  | false =>
    have hlarge : ¬ (format.intRange.1 ≤ n ∧ n ≤ format.intRange.2) := by
      rw [fitsWord, decide_eq_false_iff_not] at hfits
      omega
    rw [if_neg hlarge]
    cases hk : nearestWord? (Text.trim raw) with
    | none => rfl
    | some k =>
      have hout := nearestWord?_of_large hnumeral hfits hk
      exact if_neg (by omega)

theorem toInt_ofInt_of_mem_intRange (hformat : format.isWhole = true) {n : ℤ}
    (h : format.intRange.1 ≤ n ∧ n ≤ format.intRange.2) : (Int64.ofInt n).toInt = n := by
  have hrange := intRange_of_isWhole hformat
  apply Int64.toInt_ofInt_of_le
  · omega
  · omega

end Value
end HomeSync
