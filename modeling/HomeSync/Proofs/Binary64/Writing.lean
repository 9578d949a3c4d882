import HomeSync.Proofs.Binary64.Reading
import HomeSync.Text.Blank
import Mathlib.Tactic.LinearCombination

/-
The text of a number reads back to the number.

The decimals that read back to a number lie in an interval around it.  The search stops at a
multiple of a power of ten in the interval, and there is one as soon as the power is at most a
quarter of the last place, which it is before the tries are used up.
-/
namespace HomeSync
namespace Binary64

variable {m d : ℕ} {e k : ℤ}

/-! ## The interval -/

/-- The decimal `d * 10 ^ k` in units of `2 ^ e`. -/
def decimalUnits (d : ℕ) (k e : ℤ) : ℚ := d * 10 ^ k * 2 ^ (-e)

/-- Both scales are the powers that they stand for, times a common factor. -/
theorem scales_spec (e k : ℤ) : ∃ c : ℚ, 0 < c ∧ ((scales e k).1 : ℚ) = c * 10 ^ k ∧
    ((scales e k).2 : ℚ) = c * 2 ^ (e - 2) := by
  refine ⟨10 ^ (-k).toNat * 2 ^ (2 - e).toNat, by positivity, ?_, ?_⟩
  · show ((Nat.pow 10 k.toNat * Nat.pow 2 (2 - e).toNat : ℕ) : ℚ) = _
    rw [zpow_eq_div 10 k, Nat.cast_mul, Nat.pow_eq, Nat.pow_eq]
    push_cast
    field_simp
  · show ((Nat.pow 10 (-k).toNat * Nat.pow 2 (e - 2).toNat : ℕ) : ℚ) = _
    rw [zpow_eq_div 2 (e - 2), Nat.cast_mul, Nat.pow_eq, Nat.pow_eq, Int.neg_sub]
    push_cast
    field_simp

/-- Comparing at the common scale is to compare in quarters of a unit. -/
theorem scaled_le_iff (w d : ℕ) (e k : ℤ) :
    (w * (scales e k).2 ≤ d * (scales e k).1 ↔ (w : ℚ) / 4 ≤ decimalUnits d k e) ∧
      (d * (scales e k).1 ≤ w * (scales e k).2 ↔ decimalUnits d k e ≤ (w : ℚ) / 4) := by
  obtain ⟨c, hc, hten, htwo⟩ := scales_spec e k
  have hunit : (2 : ℚ) ^ (e - 2) = 2 ^ e / 4 := by
    rw [zpow_sub₀ (by norm_num)]
    norm_num
  have hleft : ((w * (scales e k).2 : ℕ) : ℚ) = (w : ℚ) / 4 * (c * 2 ^ e) := by
    rw [Nat.cast_mul, htwo, hunit]
    ring
  have hright : ((d * (scales e k).1 : ℕ) : ℚ) = decimalUnits d k e * (c * 2 ^ e) := by
    have hone : (2 : ℚ) ^ (-e) * 2 ^ e = 1 := by
      rw [← zpow_add₀ (by norm_num), neg_add_cancel, zpow_zero]
    rw [Nat.cast_mul, hten, decimalUnits]
    linear_combination (-(d : ℚ) * 10 ^ k * c) * hone
  have hpos : 0 < c * (2 : ℚ) ^ e := by positivity
  constructor
  · rw [← Nat.cast_le (α := ℚ), hleft, hright]
    exact mul_le_mul_iff_of_pos_right hpos
  · rw [← Nat.cast_le (α := ℚ), hleft, hright]
    exact mul_le_mul_iff_of_pos_right hpos

theorem readsBack_iff : readsBack m e d k = true ↔
    if m % 2 = 0 then
      (lowQuarters m e : ℚ) / 4 ≤ decimalUnits d k e ∧
        decimalUnits d k e ≤ (highQuarters m : ℚ) / 4
    else
      (lowQuarters m e : ℚ) / 4 < decimalUnits d k e ∧
        decimalUnits d k e < (highQuarters m : ℚ) / 4 := by
  have hlow := scaled_le_iff (lowQuarters m e) d e k
  have hhigh := scaled_le_iff (highQuarters m) d e k
  have hvalue : readsBack m e d k =
      if m % 2 = 0 then
        decide (lowQuarters m e * (scales e k).2 ≤ d * (scales e k).1 ∧
          d * (scales e k).1 ≤ highQuarters m * (scales e k).2)
      else
        decide (lowQuarters m e * (scales e k).2 < d * (scales e k).1 ∧
          d * (scales e k).1 < highQuarters m * (scales e k).2) := rfl
  rw [hvalue]
  split
  · rw [decide_eq_true_iff, hlow.1, hhigh.2]
  · rw [decide_eq_true_iff, ← Nat.not_le, hlow.2, ← Nat.not_le, hhigh.1, not_le, not_le]

theorem highQuarters_div (m : ℕ) : (highQuarters m : ℚ) / 4 = m + 1 / 2 := by
  rw [highQuarters]
  push_cast
  ring

theorem lowQuarters_le (m : ℕ) (e : ℤ) : lowQuarters m e ≤ 4 * m - 1 := by
  rw [lowQuarters]
  split <;> omega

theorem le_lowQuarters (m : ℕ) (e : ℤ) : 4 * m - 2 ≤ lowQuarters m e := by
  rw [lowQuarters]
  split <;> omega

/-- What reads back is nearest, and nearer below a power of two. -/
theorem nearest_of_readsBack (hm : 0 < m) (h : readsBack m e d k = true) :
    Nearest (decimalUnits d k e) m ∧
      (m = 2 ^ 52 → minExponent < e → (2 : ℚ) ^ 52 - 1 / 4 ≤ decimalUnits d k e) := by
  have hlow : (m : ℚ) - 1 / 2 ≤ (lowQuarters m e : ℚ) / 4 := by
    have hle := le_lowQuarters m e
    have hcast : ((4 * m : ℕ) : ℚ) ≤ (lowQuarters m e + 2 : ℕ) := by
      exact_mod_cast (by omega : 4 * m ≤ lowQuarters m e + 2)
    push_cast at hcast
    linarith
  rw [readsBack_iff, highQuarters_div] at h
  have hweak : (lowQuarters m e : ℚ) / 4 ≤ decimalUnits d k e ∧
      decimalUnits d k e ≤ (m : ℚ) + 1 / 2 := by
    split at h
    · exact h
    · exact ⟨h.1.le, h.2.le⟩
  have heven : ¬ m % 2 = 0 → (m : ℚ) - 1 / 2 < decimalUnits d k e ∧
      decimalUnits d k e < (m : ℚ) + 1 / 2 := by
    intro hodd
    rw [if_neg hodd] at h
    exact ⟨by linarith, h.2⟩
  refine ⟨⟨by linarith, hweak.2, fun hx => ?_, fun hx => ?_⟩, fun hpower he => ?_⟩
  · by_contra hodd
    have hless := (heven hodd).1
    linarith
  · by_contra hodd
    have hless := (heven hodd).2
    linarith
  · have hquarter : (lowQuarters m e : ℚ) / 4 = 2 ^ 52 - 1 / 4 := by
      rw [lowQuarters, if_pos ⟨hpower, he⟩, hpower]
      norm_num
    linarith [hweak.1]

/-! ## The search -/

/-- The number in multiples of `10 ^ k`, rounded down. -/
def multiples (m : ℕ) (e k : ℤ) : ℕ := 4 * m * (scales e k).2 / (scales e k).1

/-- Of the two multiples next to the number those that read back are candidates, and if both do
then one of them is chosen. -/
theorem candidate?_eq (m : ℕ) (e k : ℤ) : ∃ chosen,
    (chosen = multiples m e k ∨ chosen = multiples m e k + 1) ∧
    candidate? m e k =
      if readsBack m e (multiples m e k) k then
        some (if readsBack m e (multiples m e k + 1) k then chosen else multiples m e k)
      else if readsBack m e (multiples m e k + 1) k then some (multiples m e k + 1)
      else none := by
  refine ⟨if 2 * (4 * m * (scales e k).2) < (2 * multiples m e k + 1) * (scales e k).1
    then multiples m e k else multiples m e k + 1, ?_, ?_⟩
  · split
    · exact Or.inl rfl
    · exact Or.inr rfl
  · rw [candidate?, multiples]
    obtain ⟨ten, two⟩ := scales e k
    dsimp only
    cases readsBack m e (4 * m * two / ten) k <;>
      cases readsBack m e (4 * m * two / ten + 1) k <;> rfl

theorem readsBack_of_candidate? (h : candidate? m e k = some d) : readsBack m e d k = true := by
  obtain ⟨chosen, hchosen, hvalue⟩ := candidate?_eq m e k
  rw [hvalue] at h
  by_cases hlower : readsBack m e (multiples m e k) k = true
  · rw [if_pos hlower, Option.some.injEq] at h
    by_cases hupper : readsBack m e (multiples m e k + 1) k = true
    · rw [if_pos hupper] at h
      rcases hchosen with heq | heq
      · rwa [← h, heq]
      · rwa [← h, heq]
    · rw [if_neg hupper] at h
      rwa [← h]
  · rw [if_neg hlower] at h
    split at h
    · obtain rfl := Option.some.inj h
      assumption
    · exact absurd h (by simp)

theorem decimalUnits_multiples (m : ℕ) (e k : ℤ) :
    decimalUnits (multiples m e k) k e ≤ m ∧ (m : ℚ) ≤ decimalUnits (multiples m e k + 1) k e := by
  have hten : 0 < (scales e k).1 := by
    obtain ⟨c, hc, hten, -⟩ := scales_spec e k
    have hpos : (0 : ℚ) < (scales e k).1 := by
      rw [hten]
      positivity
    exact_mod_cast hpos
  have hbelow : multiples m e k * (scales e k).1 ≤ 4 * m * (scales e k).2 :=
    Nat.div_mul_le_self _ _
  have habove : 4 * m * (scales e k).2 ≤ (multiples m e k + 1) * (scales e k).1 :=
    (Nat.lt_div_mul_add hten).le.trans (Nat.succ_mul _ _).ge
  rw [(scaled_le_iff (4 * m) _ e k).2] at hbelow
  rw [(scaled_le_iff (4 * m) _ e k).1] at habove
  push_cast at hbelow habove
  exact ⟨by linarith, by linarith⟩

theorem decimalUnits_succ_le (d : ℕ) (h : (10 : ℚ) ^ k ≤ 2 ^ (e - 2)) :
    decimalUnits (d + 1) k e ≤ decimalUnits d k e + 1 / 4 := by
  have hscaled := mul_le_mul_of_nonneg_right h (zpow_nonneg (by norm_num : (0 : ℚ) ≤ 2) (-e))
  have hquarter : (2 : ℚ) ^ (e - 2) * 2 ^ (-e) = 1 / 4 := by
    rw [← zpow_add₀ (by norm_num), sub_add_eq_add_sub, add_neg_cancel, zero_sub]
    norm_num
  rw [decimalUnits, decimalUnits]
  push_cast
  linarith

theorem readsBack_of_near (hm : 0 < m) (hlow : (m : ℚ) ≤ decimalUnits d k e)
    (hhigh : decimalUnits d k e ≤ m + 1 / 4) : readsBack m e d k = true := by
  have hless : (lowQuarters m e : ℚ) / 4 < m := by
    have hle := lowQuarters_le m e
    have hcast : ((lowQuarters m e + 1 : ℕ) : ℚ) ≤ (4 * m : ℕ) := by
      exact_mod_cast (by omega : lowQuarters m e + 1 ≤ 4 * m)
    push_cast at hcast
    linarith
  rw [readsBack_iff, highQuarters_div]
  split
  · exact ⟨by linarith, by linarith⟩
  · exact ⟨by linarith, by linarith⟩

/-- Once the power of ten is at most a quarter of the last place, its multiple above the number
will do. -/
theorem candidate?_of_le (hm : 0 < m) (h : (10 : ℚ) ^ k ≤ 2 ^ (e - 2)) :
    ∃ d, candidate? m e k = some d := by
  obtain ⟨hbelow, habove⟩ := decimalUnits_multiples m e k
  have hstep := decimalUnits_succ_le (multiples m e k) h
  have hreads := readsBack_of_near hm habove (by linarith)
  obtain ⟨chosen, -, hvalue⟩ := candidate?_eq m e k
  rw [hvalue, if_pos hreads, if_pos hreads]
  split
  · exact ⟨_, rfl⟩
  · exact ⟨_, rfl⟩

theorem readsBack_search {tries : ℕ} (hm : 0 < m) (htries : 0 < tries)
    (h : (10 : ℚ) ^ (k - (tries - 1 : ℕ)) ≤ 2 ^ (e - 2)) :
    readsBack m e (search m e tries k).1 (search m e tries k).2 = true := by
  induction tries generalizing k with
  | zero => exact absurd htries (Nat.lt_irrefl 0)
  | succ tries ih =>
    rw [search]
    cases hc : candidate? m e k with
    | some d => exact readsBack_of_candidate? hc
    | none =>
      rcases Nat.eq_zero_or_pos tries with rfl | hmore
      · obtain ⟨d, hd⟩ := candidate?_of_le hm (by simpa using h)
        rw [hc] at hd
        exact absurd hd (by simp)
      · refine ih hmore ?_
        have hexp : k - 1 - ((tries - 1 : ℕ) : ℤ) = k - ((tries + 1 - 1 : ℕ) : ℤ) := by omega
        rw [hexp]
        exact h

/-! ## The start of the search -/

theorem ten_pow_le (n : ℕ) : 10 ^ n ≤ 2 ^ (10 * (n / 3) + 4 * (n % 3)) := by
  calc 10 ^ n = (10 ^ 3) ^ (n / 3) * 10 ^ (n % 3) := by
        rw [← pow_mul, ← pow_add, Nat.div_add_mod]
    _ ≤ (2 ^ 10) ^ (n / 3) * (2 ^ 4) ^ (n % 3) :=
        Nat.mul_le_mul (Nat.pow_le_pow_left (by decide) _) (Nat.pow_le_pow_left (by decide) _)
    _ = 2 ^ (10 * (n / 3) + 4 * (n % 3)) := by rw [← pow_mul, ← pow_mul, ← pow_add]

theorem le_ten_pow (n : ℕ) : 2 ^ (93 * (n / 28) + 3 * (n % 28)) ≤ 10 ^ n := by
  calc 2 ^ (93 * (n / 28) + 3 * (n % 28)) = (2 ^ 93) ^ (n / 28) * (2 ^ 3) ^ (n % 28) := by
        rw [← pow_mul, ← pow_mul, ← pow_add]
    _ ≤ (10 ^ 28) ^ (n / 28) * 10 ^ (n % 28) :=
        Nat.mul_le_mul (Nat.pow_le_pow_left (by decide) _) (Nat.pow_le_pow_left (by decide) _)
    _ = 10 ^ n := by rw [← pow_mul, ← pow_add, Nat.div_add_mod]

theorem two_zpow_le_ten_zpow {n : ℕ} {a : ℤ} (h : a ≤ (93 * (n / 28) + 3 * (n % 28) : ℕ)) :
    (2 : ℚ) ^ a ≤ 10 ^ (n : ℤ) := by
  calc (2 : ℚ) ^ a ≤ 2 ^ ((93 * (n / 28) + 3 * (n % 28) : ℕ) : ℤ) :=
        zpow_le_zpow_right₀ (by norm_num) h
    _ ≤ 10 ^ (n : ℤ) := by exact_mod_cast le_ten_pow n

theorem ten_zpow_neg_le_two_zpow {n : ℕ} {a : ℤ} (h : -a ≤ (93 * (n / 28) + 3 * (n % 28) : ℕ)) :
    (10 : ℚ) ^ (-(n : ℤ)) ≤ 2 ^ a := by
  have hinv := inv_anti₀ (by positivity) (two_zpow_le_ten_zpow h)
  rwa [← zpow_neg, ← zpow_neg, Int.neg_neg] at hinv

/-- The last power of ten that is tried is small enough. -/
theorem last_try_le (hc : Canonical m e) :
    (10 : ℚ) ^ (((m.log2 : ℤ) + e + 1) * 30103 / 100000 + 2 - (24 - 1 : ℕ)) ≤ 2 ^ (e - 2) := by
  have hlog : m.log2 ≤ 52 := by
    rcases Nat.eq_zero_or_pos m with rfl | hm
    · decide
    · exact Nat.le_of_lt_succ ((Nat.log2_lt hm.ne').mpr hc.lt_limit)
  have hmin := hc.minExponent_le
  have hmax := hc.le_maxExponent
  rw [minExponent] at hmin
  rw [maxExponent] at hmax
  obtain ⟨k, hk⟩ : ∃ k, k = ((m.log2 : ℤ) + e + 1) * 30103 / 100000 + 2 - (24 - 1 : ℕ) := ⟨_, rfl⟩
  rw [← hk]
  have hsize : 100000 * k ≤ 30103 * (e + 53) - 2100000 := by omega
  rcases Int.le_total 0 k with hsign | hsign
  · obtain ⟨n, rfl⟩ := Int.eq_ofNat_of_zero_le hsign
    calc (10 : ℚ) ^ (n : ℤ) ≤ 2 ^ ((10 * (n / 3) + 4 * (n % 3) : ℕ) : ℤ) := by
          exact_mod_cast ten_pow_le n
      _ ≤ 2 ^ (e - 2) := zpow_le_zpow_right₀ (by norm_num) (by omega)
  · obtain ⟨n, hn⟩ := Int.eq_ofNat_of_zero_le (Int.neg_nonneg_of_nonpos hsign)
    obtain rfl : k = -(n : ℤ) := by omega
    exact ten_zpow_neg_le_two_zpow (by omega)

theorem readsBack_shortest (hc : Canonical m e) (hm : 0 < m) :
    readsBack m e (shortest m e).1 (shortest m e).2 = true :=
  readsBack_search hm (by decide) (last_try_le hc)

/-! ## Positional text -/

/-- Digits and a power of ten that a decimal text stands for. -/
structure Positional (negative : Bool) (cs : List Char) (d : ℕ) (k : ℤ) : Prop where
  digit : ∃ c rest, cs = c :: rest ∧ c.isDigit = true
  plain : ∀ c ∈ cs, c.isDigit = true ∨ c = '.'
  reads : ∃ digits x, (∀ d ∈ digits, d < 10) ∧
    decimal? negative cs = some (ofDecimal negative (digits.dropWhile (· == 0)) x) ∧
    (valueOf digits : ℚ) * 10 ^ x = d * 10 ^ k

theorem isDigit_of_mem_replicate {n : ℕ} {c : Char} (h : c ∈ List.replicate n '0') :
    c.isDigit = true := by
  rw [(List.mem_replicate.mp h).2]
  rfl

theorem isDigit_of_mem_toDigits {d : ℕ} {c : Char} (h : c ∈ Nat.toDigits 10 d) :
    c.isDigit = true := Nat.isDigit_of_mem_toDigits (by decide) (by decide) h

theorem positional_of_nonneg (negative : Bool) (d : ℕ) (h : 0 ≤ k) :
    Positional negative (positional d k) d k := by
  obtain ⟨n, rfl⟩ := Int.eq_ofNat_of_zero_le h
  have hvalue : positional d n = Nat.toDigits 10 d ++ List.replicate n '0' := by
    rw [positional, if_pos h, Int.toNat_natCast]
  have hdigits : ∀ c ∈ positional d n, c.isDigit = true := by
    intro c hc
    rw [hvalue, List.mem_append] at hc
    exact hc.elim isDigit_of_mem_toDigits isDigit_of_mem_replicate
  have hne : positional d n ≠ [] := by
    rw [hvalue]
    exact List.append_ne_nil_of_left_ne_nil Nat.toDigits_ne_nil _
  refine ⟨exists_cons_of_digits hne hdigits, fun c hc => Or.inl (hdigits c hc), ?_⟩
  refine ⟨_, _, digitsOf_lt hdigits, decimal?_whole negative hdigits hne, ?_⟩
  rw [valueOf_digitsOf, hvalue, Nat.ofDigitChars_append, Nat.ofDigitChars_replicate_zero,
    Nat.ofDigitChars_ten_toDigits, zpow_natCast, zpow_zero]
  push_cast
  ring

/-- The digits are filled up with zeros until there is one before the point. -/
theorem positional_of_neg (negative : Bool) (d : ℕ) (h : k < 0) :
    Positional negative (positional d k) d k := by
  obtain ⟨places, hplaces⟩ : ∃ places : ℕ, places = (-k).toNat := ⟨_, rfl⟩
  obtain ⟨padded, hpadded⟩ : ∃ padded, padded =
      List.replicate (places + 1 - (Nat.toDigits 10 d).length) '0' ++ Nat.toDigits 10 d := ⟨_, rfl⟩
  have hvalue : positional d k =
      padded.take (padded.length - places) ++ '.' :: padded.drop (padded.length - places) := by
    rw [positional, if_neg (by omega), hpadded, hplaces]
  have hlength : places < padded.length := by
    rw [hpadded, List.length_append, List.length_replicate]
    omega
  have hdigits : ∀ c ∈ padded, c.isDigit = true := by
    intro c hc
    rw [hpadded, List.mem_append] at hc
    exact hc.elim isDigit_of_mem_replicate isDigit_of_mem_toDigits
  have hwhole : ∀ c ∈ padded.take (padded.length - places), c.isDigit = true :=
    fun c hc => hdigits c (List.mem_of_mem_take hc)
  have hfraction : ∀ c ∈ padded.drop (padded.length - places), c.isDigit = true :=
    fun c hc => hdigits c (List.mem_of_mem_drop hc)
  have hne : padded.take (padded.length - places) ≠ [] := by
    rw [← List.length_pos_iff, List.length_take]
    omega
  rw [hvalue]
  refine ⟨?_, ?_, ?_⟩
  · obtain ⟨c, rest, hcons, hc⟩ := exists_cons_of_digits hne hwhole
    exact ⟨c, _, by rw [hcons, List.cons_append], hc⟩
  · intro c hc
    rw [List.mem_append, List.mem_cons] at hc
    rcases hc with hc | rfl | hc
    · exact Or.inl (hwhole c hc)
    · exact Or.inr rfl
    · exact Or.inl (hfraction c hc)
  · have hreads := decimal?_point negative hwhole hfraction hne
    rw [List.take_append_drop] at hreads
    refine ⟨_, _, digitsOf_lt hdigits, hreads, ?_⟩
    have hplace : -((padded.drop (padded.length - places)).length : ℤ) = k := by
      rw [List.length_drop]
      omega
    rw [hplace, valueOf_digitsOf, hpadded, Nat.ofDigitChars_append,
      Nat.ofDigitChars_replicate_zero, Nat.mul_zero, Nat.ofDigitChars_ten_toDigits]

theorem positional_spec (negative : Bool) (d : ℕ) (k : ℤ) :
    Positional negative (positional d k) d k := by
  rcases Int.lt_or_le k 0 with h | h
  · exact positional_of_neg negative d h
  · exact positional_of_nonneg negative d h

/-! ## Reading back -/

/-- A decimal that is nearest to a number is of a size that is worth computing. -/
theorem size_of_nearest (hc : Canonical m e) (hm : 0 < m)
    (hnear : Nearest (decimalUnits d k e) m) :
    (10 : ℚ) ^ (-331 : ℤ) ≤ d * 10 ^ k ∧ (d : ℚ) * 10 ^ k < 10 ^ (310 : ℤ) := by
  have hsize : (d : ℚ) * 10 ^ k = decimalUnits d k e * 2 ^ e := by
    rw [decimalUnits, mul_assoc, ← zpow_add₀ (by norm_num), neg_add_cancel, zpow_zero, mul_one]
  have hmin := hc.minExponent_le
  have hmax := hc.le_maxExponent
  rw [minExponent] at hmin
  rw [maxExponent] at hmax
  rw [hsize]
  constructor
  · have hhalf : (1 : ℚ) / 2 ≤ decimalUnits d k e := by
      have hone : (1 : ℚ) ≤ m := by exact_mod_cast hm
      have hbelow := hnear.below
      linarith
    calc (10 : ℚ) ^ (-331 : ℤ) ≤ 2 ^ (e - 1) := ten_zpow_neg_le_two_zpow (n := 331) (by omega)
      _ = 1 / 2 * 2 ^ e := by
        rw [zpow_sub_one₀ (by norm_num)]
        ring
      _ ≤ decimalUnits d k e * 2 ^ e := mul_le_mul_of_nonneg_right hhalf (by positivity)
  · have hlimit : decimalUnits d k e ≤ 2 ^ (53 : ℤ) := by
      have hless : (m : ℚ) + 1 ≤ 2 ^ 53 := by exact_mod_cast hc.lt_limit
      have habove := hnear.above
      norm_num at hless ⊢
      linarith
    calc decimalUnits d k e * 2 ^ e ≤ 2 ^ (53 : ℤ) * 2 ^ e :=
          mul_le_mul_of_nonneg_right hlimit (by positivity)
      _ = 2 ^ (53 + e) := (zpow_add₀ (by norm_num) _ _).symm
      _ < 2 ^ (1025 : ℤ) := zpow_lt_zpow_right₀ (by norm_num) (by omega)
      _ ≤ 10 ^ (310 : ℤ) := two_zpow_le_ten_zpow (n := 310) (by omega)

theorem ofDecimal_of_readsBack {digits : List ℕ} {x : ℤ} (negative : Bool) (hc : Canonical m e)
    (hm : 0 < m) (h : readsBack m e d k = true) (hdigits : ∀ d ∈ digits, d < 10)
    (hvalue : (valueOf digits : ℚ) * 10 ^ x = d * 10 ^ k) :
    ofDecimal negative (digits.dropWhile (· == 0)) x = .finite negative m e := by
  obtain ⟨hnear, hpower⟩ := nearest_of_readsBack hm h
  obtain ⟨hlow, hhigh⟩ := size_of_nearest hc hm hnear
  rw [← hvalue] at hlow hhigh
  have hunits : inUnits (valueOf digits * Nat.pow 10 x.toNat) (Nat.pow 10 (-x).toNat) e =
      decimalUnits d k e := by
    rw [inUnits_decimal, hvalue, decimalUnits]
  have hpos : 0 < valueOf digits := by
    rcases Nat.eq_zero_or_pos (valueOf digits) with hzero | hpos
    · have hten : (0 : ℚ) < 10 ^ (-331 : ℤ) := by positivity
      rw [hzero, Nat.cast_zero, zero_mul] at hlow
      linarith
    · exact hpos
  have hten : ∀ n, 0 < Nat.pow 10 n := fun n => Nat.pow_pos (by decide)
  rw [ofDecimal_eq negative hdigits hlow hhigh]
  apply ofFraction_eq_finite negative (Nat.mul_pos hpos (hten _)) (hten _) hc
  · rw [hunits]
    exact hnear
  · rw [hunits]
    exact hpower

theorem ofString?_signed {negative : Bool} {body : List Char}
    (h : ∃ c rest, body = c :: rest ∧ c.isDigit = true) :
    ofString? (String.ofList (if negative then '-' :: body else body)) =
      decimal? negative body := by
  obtain ⟨c, rest, rfl, hc⟩ := h
  apply ofString?_of_digit _ hc
  rw [String.toList_ofList]
  cases negative
  · exact splitSign_of_digit hc
  · rfl

/-- The text of a canonical number reads back to it. -/
theorem ofString?_toText (negative : Bool) (hc : Canonical m e) :
    ofString? (toText (.finite negative m e)) = some (.finite negative m e) := by
  rw [toText]
  by_cases hm : m = 0
  · subst hm
    obtain rfl : e = minExponent := hc.full.resolve_left (by decide)
    simp only [if_true]
    rw [ofString?_signed ⟨'0', [], rfl, rfl⟩]
    cases negative <;> rfl
  · simp only [hm, if_false]
    have hpos : 0 < m := Nat.pos_of_ne_zero hm
    obtain ⟨hdigit, -, digits, x, hdigits, hreads, hvalue⟩ :=
      positional_spec negative (shortest m e).1 (shortest m e).2
    rw [ofString?_signed hdigit, hreads, ofDecimal_of_readsBack negative hc hpos
      (readsBack_shortest hc hpos) hdigits hvalue]

theorem not_isBlank_of_plain {c : Char} (h : c.isDigit = true ∨ c = '.') :
    Text.isBlank c = false := by
  rcases h with h | rfl
  · rw [Char.isDigit, Bool.and_eq_true, decide_eq_true_iff, decide_eq_true_iff] at h
    have hlow : 48 ≤ c.toNat := h.1
    have hhigh : c.toNat ≤ 57 := h.2
    rw [Text.isBlank, Text.blankRanges]
    simp
    omega
  · rfl

/-- The text of a finite number has no blanks. -/
theorem not_isBlank_of_mem_toText {negative : Bool} {m : ℕ} {e : ℤ} {c : Char}
    (h : c ∈ (toText (.finite negative m e)).toList) : Text.isBlank c = false := by
  obtain ⟨body, hbody, hplain⟩ : ∃ body,
      (toText (.finite negative m e)).toList = (if negative then '-' :: body else body) ∧
        ∀ c ∈ body, c.isDigit = true ∨ c = '.' := by
    refine ⟨if m = 0 then ['0'] else positional (shortest m e).1 (shortest m e).2, ?_, ?_⟩
    · rw [toText, String.toList_ofList]
    · split
      · intro c hc
        rw [List.mem_singleton.mp hc]
        exact Or.inl rfl
      · exact (positional_spec negative _ _).plain
  rw [hbody] at h
  cases negative with
  | false => exact not_isBlank_of_plain (hplain c h)
  | true =>
    rcases List.mem_cons.mp h with rfl | hc
    · rfl
    · exact not_isBlank_of_plain (hplain c hc)

end Binary64
end HomeSync
