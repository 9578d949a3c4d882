import HomeSync.Proofs.Binary64.Rounding

/-
Integers as binary64 numbers.

An integer below `2 ^ 53` is a number itself.  Larger ones are rounded, but never below a
power of two that they reach.  So every integer compares rightly with those that are exact,
whatever rounding has done to it: `le_ofInt_ofInt`.
-/
namespace HomeSync
namespace Binary64

theorem cast_pow_two (n : ℕ) : ((Nat.pow 2 n : ℕ) : ℚ) = 2 ^ (n : ℤ) :=
  (Nat.cast_pow 2 n).trans (zpow_natCast 2 n).symm

theorem pow_two_pos (n : ℕ) : 0 < Nat.pow 2 n := Nat.pow_pos (by decide)

/-- How often `2 ^ -1074` goes into one. -/
def perUnit : ℕ := Nat.pow 2 (-minExponent).toNat

-- the power is far too large to be computed, so it is only ever unfolded where it stands
theorem perUnit_pos : 0 < perUnit := by
  have hpos := pow_two_pos (-minExponent).toNat
  unfold perUnit
  exact hpos

theorem cast_perUnit : (perUnit : ℚ) = 2 ^ (-minExponent) := by
  have hcast := cast_pow_two (-minExponent).toNat
  unfold perUnit
  exact hcast

theorem multiple_true (m : ℕ) (e : ℤ) : multiple true m e = -multiple false m e := rfl

variable {num den m : ℕ} {e : ℤ}

theorem cast_multiple (h : minExponent ≤ e) :
    (multiple false m e : ℚ) = m * 2 ^ e * perUnit := by
  have hexp : (((e - minExponent).toNat : ℕ) : ℤ) = e + -minExponent := by omega
  have hvalue : multiple false m e = ((m * Nat.pow 2 (e - minExponent).toNat : ℕ) : ℤ) := rfl
  rw [hvalue, Int.cast_natCast, Nat.cast_mul, cast_pow_two, hexp, zpow_add₀ (by norm_num),
    cast_perUnit, mul_assoc]

/-! ## Small integers -/

/-- An integer below `2 ^ 53` is exact, its mantissa is the integer shifted to the full
length. -/
theorem ofFraction_of_lt (negative : Bool) {n : ℕ} (hpos : 0 < n) (hlt : n < 2 ^ 53) :
    ∃ m e, ofFraction negative n 1 = .finite negative m e ∧
      multiple false m e = n * perUnit := by
  obtain ⟨l, hl⟩ : ∃ l, l = n.log2 := ⟨_, rfl⟩
  have hlow : 2 ^ l ≤ n := hl ▸ Nat.log2_self_le hpos.ne'
  have hhigh : n < 2 ^ (l + 1) := hl ▸ Nat.lt_log2_self
  have hl52 : l ≤ 52 := by
    by_contra hgt
    have hpow : 2 ^ 53 ≤ 2 ^ l := Nat.pow_le_pow_right (by decide) (by omega)
    omega
  have hsplit : 2 ^ l * 2 ^ (52 - l) = 2 ^ 52 := by
    rw [← Nat.pow_add]
    congr 1
    omega
  have hfull : 2 ^ 52 ≤ n * 2 ^ (52 - l) := hsplit ▸ Nat.mul_le_mul_right _ hlow
  have hfits : n * 2 ^ (52 - l) < 2 ^ 53 := by
    have hscaled := Nat.mul_lt_mul_of_pos_right hhigh (Nat.two_pow_pos (52 - l))
    rw [Nat.pow_succ, Nat.mul_right_comm, hsplit] at hscaled
    exact hscaled
  have hunits : inUnits n 1 (l - 52) = ((n * 2 ^ (52 - l) : ℕ) : ℚ) := by
    have hexp : -((l : ℤ) - 52) = ((52 - l : ℕ) : ℤ) := by omega
    rw [inUnits, hexp, zpow_natCast]
    push_cast
    ring
  have hmin : minExponent ≤ (l : ℤ) - 52 := by
    rw [minExponent]
    omega
  refine ⟨n * 2 ^ (52 - l), (l : ℤ) - 52, ?_, ?_⟩
  · apply ofFraction_eq_finite negative hpos Nat.one_pos
    · exact ⟨hfits, hmin, by rw [maxExponent]; omega, Or.inl hfull⟩
    · rw [hunits]
      exact nearest_natCast _
    · intro hm _
      rw [hunits, hm]
      norm_num
  · have hvalue : ((n * 2 ^ (52 - l) : ℕ) : ℚ) * 2 ^ ((l : ℤ) - 52) = n := by
      rw [← hunits, inUnits, Nat.cast_one, div_one, mul_assoc, ← zpow_add₀ (by norm_num),
        neg_add_cancel, zpow_zero, mul_one]
    have hcast := cast_multiple (m := n * 2 ^ (52 - l)) hmin
    rw [hvalue] at hcast
    exact_mod_cast hcast

/-! ## Large integers -/

/-- Rounding does not take a fraction below a power of two. -/
theorem zpow_le_of_nearest {p : ℤ} (hp : minExponent ≤ p) (hle : (2 : ℚ) ^ p ≤ num / den)
    (hc : Canonical m e) (hnear : Nearest (inUnits num den e) m) :
    (2 : ℚ) ^ p ≤ m * 2 ^ e := by
  have hunits : (2 : ℚ) ^ (p - e) ≤ inUnits num den e := by
    rw [Int.sub_eq_add_neg, zpow_add₀ (by norm_num)]
    exact mul_le_mul_of_nonneg_right hle (by positivity)
  rcases Int.le_total e p with he | he
  · obtain ⟨k, hk⟩ := Int.eq_ofNat_of_zero_le (Int.sub_nonneg_of_le he)
    have hm : 2 ^ k ≤ m := by
      apply le_of_nearest hnear
      rw [hk, zpow_natCast] at hunits
      exact_mod_cast hunits
    have hm' : (2 : ℚ) ^ k ≤ m := by exact_mod_cast hm
    have hpow : (2 : ℚ) ^ p = 2 ^ k * 2 ^ e := by
      rw [← zpow_natCast, ← zpow_add₀ (by norm_num), ← hk, Int.sub_add_cancel]
    rw [hpow]
    exact mul_le_mul_of_nonneg_right hm' (by positivity)
  · -- the exponent is large enough, so any mantissa will do but zero
    have hm : 1 ≤ m := by
      rcases hc.full with hfull | hleast
      · exact le_trans (by norm_num) hfull
      · apply le_of_nearest hnear
        have hzero : p - e = 0 := by omega
        rw [hzero, zpow_zero] at hunits
        exact_mod_cast hunits
    have hm' : (1 : ℚ) ≤ m := by exact_mod_cast hm
    calc (2 : ℚ) ^ p ≤ 2 ^ e := zpow_le_zpow_right₀ (by norm_num) he
      _ ≤ m * 2 ^ e := le_mul_of_one_le_left (by positivity) hm'

/-- An integer that reaches a power of two still reaches it when it is rounded. -/
theorem ofFraction_of_le (negative : Bool) {n p : ℕ} (hle : 2 ^ p ≤ n) :
    ofFraction negative n 1 = .infinite negative ∨
      ∃ m e, ofFraction negative n 1 = .finite negative m e ∧
        ((2 ^ p * perUnit : ℕ) : ℤ) ≤ multiple false m e := by
  have hpos : 0 < n := lt_of_lt_of_le (Nat.two_pow_pos p) hle
  cases hx : ofFraction negative n 1 with
  | nan =>
    rw [ofFraction] at hx
    split at hx <;> simp at hx
  | infinite sign =>
    rw [ofFraction] at hx
    split at hx
    · simp at hx
    · exact Or.inl hx.symm
  | finite sign m e =>
    obtain ⟨rfl, hc, hnear⟩ := canonical_ofFraction hpos Nat.one_pos hx
    have hreach : (2 : ℚ) ^ (p : ℤ) ≤ (n : ℚ) / (1 : ℕ) := by
      rw [zpow_natCast, Nat.cast_one, div_one]
      exact_mod_cast hle
    have hp : minExponent ≤ p := by
      rw [minExponent]
      omega
    have hvalue := mul_le_mul_of_nonneg_right (zpow_le_of_nearest hp hreach hc hnear)
      (Nat.cast_nonneg (α := ℚ) perUnit)
    rw [← cast_multiple hc.minExponent_le, zpow_natCast] at hvalue
    exact Or.inr ⟨m, e, rfl, by exact_mod_cast hvalue⟩

/-! ## Comparing integers -/

theorem ofInt_natCast (n : ℕ) : ofInt n = ofFraction false n 1 := by
  have hsign : decide ((n : ℤ) < 0) = false := decide_eq_false (by omega)
  rw [ofInt, hsign, Int.natAbs_natCast]

theorem ofInt_neg {n : ℕ} (h : 0 < n) : ofInt (-n) = ofFraction true n 1 := by
  have hsign : decide (-(n : ℤ) < 0) = true := decide_eq_true (by omega)
  rw [ofInt, hsign, Int.natAbs_neg, Int.natAbs_natCast]

theorem ofInt_of_small {a : ℤ} (hlow : -2 ^ 53 < a) (hhigh : a < 2 ^ 53) :
    ∃ s m e, ofInt a = .finite s m e ∧ multiple s m e = a * perUnit := by
  obtain ⟨n, hn⟩ := Int.eq_nat_or_neg a
  rcases Nat.eq_zero_or_pos n with rfl | hpos
  · obtain rfl : a = 0 := by simpa using hn
    have hzero : multiple false 0 (-54) =
        ((0 * Nat.pow 2 (-54 - minExponent).toNat : ℕ) : ℤ) := rfl
    refine ⟨false, 0, -54, by decide +kernel, ?_⟩
    rw [hzero, Nat.zero_mul, Int.zero_mul, Nat.cast_zero]
  · rcases hn with rfl | rfl
    · obtain ⟨m, e, hx, hvalue⟩ := ofFraction_of_lt false hpos (by omega)
      exact ⟨false, m, e, (ofInt_natCast n).trans hx, hvalue⟩
    · obtain ⟨m, e, hx, hvalue⟩ := ofFraction_of_lt true hpos (by omega)
      refine ⟨true, m, e, (ofInt_neg hpos).trans hx, ?_⟩
      rw [multiple_true, hvalue, Int.neg_mul]

theorem ofInt_of_large {a : ℤ} (h : 2 ^ 53 ≤ a) :
    ofInt a = .infinite false ∨
      ∃ m e, ofInt a = .finite false m e ∧ 2 ^ 53 * (perUnit : ℤ) ≤ multiple false m e := by
  obtain ⟨n, rfl⟩ := Int.eq_ofNat_of_zero_le (by omega : 0 ≤ a)
  rw [ofInt_natCast]
  rcases ofFraction_of_le false (by omega : 2 ^ 53 ≤ n) with hx | ⟨m, e, hx, hvalue⟩
  · exact Or.inl hx
  · exact Or.inr ⟨m, e, hx, by exact_mod_cast hvalue⟩

theorem ofInt_of_low {a : ℤ} (h : a ≤ -2 ^ 53) :
    ofInt a = .infinite true ∨
      ∃ m e, ofInt a = .finite true m e ∧ multiple true m e ≤ -(2 ^ 53 * (perUnit : ℤ)) := by
  obtain ⟨n, hn⟩ := Int.eq_ofNat_of_zero_le (by omega : 0 ≤ -a)
  obtain rfl : a = -(n : ℤ) := by omega
  rw [ofInt_neg (by omega)]
  rcases ofFraction_of_le true (by omega : 2 ^ 53 ≤ n) with hx | ⟨m, e, hx, hvalue⟩
  · exact Or.inl hx
  · exact Or.inr ⟨m, e, hx, by rw [multiple_true]; exact Int.neg_le_neg (by exact_mod_cast hvalue)⟩

theorem le_infinite_finite (negative s : Bool) (m : ℕ) (e : ℤ) :
    le (.infinite negative) (.finite s m e) = negative := by
  cases negative <;> rfl

theorem le_finite_infinite (negative s : Bool) (m : ℕ) (e : ℤ) :
    le (.finite s m e) (.infinite negative) = !negative := by
  cases negative <;> rfl

/-- A finite number of small size compares with what an integer became as it does with the
integer. -/
theorem le_ofInt_iff (a : ℤ) {s : Bool} (hlow : -(2 ^ 53 * (perUnit : ℤ)) < multiple s m e)
    (hhigh : multiple s m e < 2 ^ 53 * (perUnit : ℤ)) :
    (le (ofInt a) (.finite s m e) = true ↔ a * perUnit ≤ multiple s m e) ∧
      (le (.finite s m e) (ofInt a) = true ↔ multiple s m e ≤ a * perUnit) := by
  have hunit : (0 : ℤ) ≤ perUnit := Int.natCast_nonneg perUnit
  rcases Int.lt_or_le a (2 ^ 53) with hsmall | hlarge
  · rcases Int.lt_or_le (-2 ^ 53) a with hsmall' | hlarge
    · obtain ⟨s', m', e', hx, hvalue⟩ := ofInt_of_small hsmall' hsmall
      rw [hx, le, le, decide_eq_true_iff, decide_eq_true_iff, hvalue]
      exact ⟨Iff.rfl, Iff.rfl⟩
    · have hsize := Int.mul_le_mul_of_nonneg_right hlarge hunit
      rw [Int.neg_mul] at hsize
      rcases ofInt_of_low hlarge with hx | ⟨m', e', hx, hvalue⟩
      · rw [hx, le_infinite_finite, le_finite_infinite]
        exact ⟨⟨fun _ => by omega, fun _ => rfl⟩, fun h => absurd h (by decide), fun _ => by omega⟩
      · rw [hx, le, le, decide_eq_true_iff, decide_eq_true_iff]
        exact ⟨by omega, by omega⟩
  · have hsize := Int.mul_le_mul_of_nonneg_right hlarge hunit
    rcases ofInt_of_large hlarge with hx | ⟨m', e', hx, hvalue⟩
    · rw [hx, le_infinite_finite, le_finite_infinite]
      exact ⟨⟨fun h => absurd h (by decide), fun _ => by omega⟩, fun _ => by omega, fun _ => rfl⟩
    · rw [hx, le, le, decide_eq_true_iff, decide_eq_true_iff]
      exact ⟨by omega, by omega⟩

variable {n : ℤ}

/-- An exact integer compares with every integer as the integers do. -/
theorem le_ofInt_ofInt (a : ℤ) (hlow : -2 ^ 53 < n) (hhigh : n < 2 ^ 53) :
    (le (ofInt a) (ofInt n) = true ↔ a ≤ n) ∧ (le (ofInt n) (ofInt a) = true ↔ n ≤ a) := by
  obtain ⟨s, m, e, hx, hvalue⟩ := ofInt_of_small hlow hhigh
  have hunit : (0 : ℤ) < perUnit := by exact_mod_cast perUnit_pos
  have hbelow := Int.mul_lt_mul_of_pos_right hlow hunit
  have habove := Int.mul_lt_mul_of_pos_right hhigh hunit
  rw [Int.neg_mul, ← hvalue] at hbelow
  rw [← hvalue] at habove
  obtain ⟨hleft, hright⟩ := le_ofInt_iff a hbelow habove
  rw [hx, hleft, hright, hvalue]
  exact ⟨Int.mul_le_mul_right hunit, Int.mul_le_mul_right hunit⟩

/-! ## Rounding to integers again -/

theorem round?_infinite (negative : Bool) : round? (.infinite negative) = none := rfl

theorem round?_finite (s : Bool) (m : ℕ) (e : ℤ) :
    round? (.finite s m e) = some (if s then
      -(((2 * (multiple false m e).toNat + perUnit) / (2 * perUnit) : ℕ) : ℤ)
    else (((2 * (multiple false m e).toNat + perUnit) / (2 * perUnit) : ℕ) : ℤ)) := by
  have hexp : 1074 = (-minExponent).toNat := rfl
  unfold round? perUnit
  rw [hexp]

/-- A number that reaches an integer does not fall below it when it is rounded. -/
theorem round?_of_le {s : Bool} {k : ℕ} (h : ((k * perUnit : ℕ) : ℤ) ≤ multiple false m e) :
    ∃ n : ℕ, k ≤ n ∧ round? (.finite s m e) = some (if s then -(n : ℤ) else n) := by
  have hunit := perUnit_pos
  refine ⟨_, ?_, round?_finite s m e⟩
  rw [Nat.le_div_iff_mul_le (by omega)]
  have hnat : k * perUnit ≤ (multiple false m e).toNat := by omega
  have hdouble : k * (2 * perUnit) = 2 * (k * perUnit) := Nat.mul_left_comm k 2 perUnit
  omega

end Binary64
end HomeSync
