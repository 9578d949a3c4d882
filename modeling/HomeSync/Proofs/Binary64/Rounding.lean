import HomeSync.Binary64.Basic
import Mathlib.Algebra.Order.Field.Power
import Mathlib.Algebra.Order.Field.Rat
import Mathlib.Tactic.FieldSimp
import Mathlib.Tactic.Linarith
import Mathlib.Tactic.Positivity
import Mathlib.Tactic.Ring

/-
What rounding to a binary64 number does, over the rationals.

A fraction is rounded by counting up from an exponent that is too small for it, until its
mantissa fits.  `Nearest` says what one rounding to an integer gives, and `Canonical` which
mantissas and exponents can come out.  The two main results are each other's converse:
`canonical_ofFraction`, what comes out is canonical and nearest at its exponent, and
`ofFraction_eq_finite`, a canonical number comes out of every fraction that it is nearest to.
The second one needs a condition more at a power of two, because the numbers below it are
closer together than those above.
-/
namespace HomeSync
namespace Binary64

/-! ## Rounding to an integer -/

/-- `m` is the integer nearest to `x`, and the even one if two are equally near. -/
structure Nearest (x : ℚ) (m : ℕ) : Prop where
  below : (m : ℚ) - 1 / 2 ≤ x
  above : x ≤ m + 1 / 2
  even_below : (m : ℚ) - 1 / 2 = x → m % 2 = 0
  even_above : x = m + 1 / 2 → m % 2 = 0

theorem nearest_roundQuotient (num : ℕ) {den : ℕ} (hden : 0 < den) :
    Nearest (num / den) (roundQuotient num den) := by
  have hpos : (0 : ℚ) < den := by exact_mod_cast hden
  have hrem : num % den < den := Nat.mod_lt num hden
  obtain ⟨q, hq⟩ : ∃ q, q = num / den := ⟨_, rfl⟩
  obtain ⟨r, hr⟩ : ∃ r, r = num % den := ⟨_, rfl⟩
  have hsum : (num : ℚ) / den = q + r / den := by
    have hnum : (num : ℚ) = den * q + r := by
      exact_mod_cast hq ▸ hr ▸ (Nat.div_add_mod num den).symm
    rw [hnum]
    field_simp
  have hfraction : (0 : ℚ) ≤ r / den := by positivity
  rw [roundQuotient, ← hq, ← hr, hsum]
  rw [← hr] at hrem
  by_cases hsmall : 2 * r < den
  · have hless : (r : ℚ) / den < 1 / 2 := by
      rw [div_lt_div_iff₀ hpos (by norm_num)]
      exact_mod_cast (by omega : r * 2 < 1 * den)
    rw [if_pos (Or.inl hsmall)]
    exact ⟨by linarith, by linarith, fun h => by linarith, fun h => by linarith⟩
  · have hmore : (1 : ℚ) / 2 ≤ r / den := by
      rw [div_le_div_iff₀ (by norm_num) hpos]
      exact_mod_cast (by omega : 1 * den ≤ r * 2)
    have hless : (r : ℚ) / den < 1 := by
      rw [div_lt_one hpos]
      exact_mod_cast hrem
    by_cases htie : 2 * r = den ∧ q % 2 = 0
    · have hhalf : (r : ℚ) / den = 1 / 2 := by
        rw [div_eq_div_iff hpos.ne' (by norm_num)]
        exact_mod_cast (by omega : r * 2 = 1 * den)
      rw [if_pos (Or.inr htie)]
      exact ⟨by linarith, by linarith, fun h => by linarith, fun _ => htie.2⟩
    · rw [if_neg (fun h => h.elim hsmall htie)]
      refine ⟨by push_cast; linarith, by push_cast; linarith, fun h => ?_, fun h => ?_⟩
      · -- half-way between two integers, of which the lower one is odd
        have hhalf : (r : ℚ) / den = 1 / 2 := by push_cast at h; linarith
        rw [div_eq_div_iff hpos.ne' (by norm_num)] at hhalf
        have htwice : r * 2 = 1 * den := by exact_mod_cast hhalf
        omega
      · push_cast at h
        linarith

theorem nearest_unique {x : ℚ} {m m' : ℕ} (h : Nearest x m) (h' : Nearest x m') : m = m' := by
  have hlt : ∀ {m m' : ℕ}, Nearest x m → Nearest x m' → ¬ m < m' := by
    intro m m' h h' hlt
    have hstep : (m : ℚ) + 1 ≤ m' := by exact_mod_cast hlt
    have hbelow := h'.below
    have habove := h.above
    have hnext : (m' : ℚ) = m + 1 := by linarith
    have heven := h.even_above (by linarith)
    have heven' := h'.even_below (by linarith)
    have hsucc : m' = m + 1 := by exact_mod_cast hnext
    omega
  exact Nat.le_antisymm (Nat.le_of_not_lt (hlt h' h)) (Nat.le_of_not_lt (hlt h h'))

theorem le_of_nearest {x : ℚ} {m k : ℕ} (h : Nearest x m) (hk : (k : ℚ) ≤ x) : k ≤ m := by
  by_contra hlt
  have hstep : (m : ℚ) + 1 ≤ k := by exact_mod_cast Nat.lt_of_not_le hlt
  have habove := h.above
  linarith

/-- An even integer takes the half-way case below it. -/
theorem le_of_nearest_even {x : ℚ} {m k : ℕ} (h : Nearest x m) (heven : k % 2 = 0)
    (hk : (k : ℚ) - 1 / 2 ≤ x) : k ≤ m := by
  by_contra hlt
  have hstep : (m : ℚ) + 1 ≤ k := by exact_mod_cast Nat.lt_of_not_le hlt
  have habove := h.above
  have hm := h.even_above (by linarith)
  have hsucc : k = m + 1 := by exact_mod_cast (by linarith : (k : ℚ) = m + 1)
  omega

theorem nearest_natCast (k : ℕ) : Nearest k k :=
  ⟨by linarith, by linarith, fun h => by linarith, fun h => by linarith⟩

/-! ## Rounding at an exponent -/

theorem zpow_eq_div (b : ℚ) (e : ℤ) : b ^ e = b ^ e.toNat / b ^ (-e).toNat := by
  rcases Int.le_total 0 e with he | he
  · obtain ⟨n, rfl⟩ := Int.eq_ofNat_of_zero_le he
    simp
  · obtain ⟨n, hn⟩ := Int.eq_ofNat_of_zero_le (Int.neg_nonneg_of_nonpos he)
    obtain rfl : e = -(n : ℤ) := by omega
    simp

/-- The fraction `num / den` in units of `2 ^ e`. -/
def inUnits (num den : ℕ) (e : ℤ) : ℚ := num / den * 2 ^ (-e)

theorem nearest_mantissaAt (num : ℕ) {den : ℕ} (hden : 0 < den) (e : ℤ) :
    Nearest (inUnits num den e) (mantissaAt num den e) := by
  have hscaled : inUnits num den e =
      ((num * Nat.pow 2 (-e).toNat : ℕ) : ℚ) / ((den * Nat.pow 2 e.toNat : ℕ) : ℚ) := by
    have hpow : ∀ n, ((Nat.pow 2 n : ℕ) : ℚ) = 2 ^ n := fun n => Nat.cast_pow 2 n
    rw [inUnits, zpow_eq_div, Int.neg_neg, Nat.cast_mul, Nat.cast_mul, hpow, hpow,
      div_mul_div_comm]
  rw [hscaled]
  exact nearest_roundQuotient _ (Nat.mul_pos hden (Nat.pow_pos (by decide)))

theorem inUnits_sub_one (num den : ℕ) (e : ℤ) :
    inUnits num den (e - 1) = 2 * inUnits num den e := by
  have hexp : -(e - 1) = -e + 1 := by ring
  rw [inUnits, inUnits, hexp, zpow_add_one₀ (by norm_num)]
  ring

theorem inUnits_antitone (num den : ℕ) {e e' : ℤ} (h : e' ≤ e) :
    inUnits num den e ≤ inUnits num den e' := by
  rw [inUnits, inUnits]
  exact mul_le_mul_of_nonneg_left (zpow_le_zpow_right₀ (by norm_num) (by omega)) (by positivity)

/-- The logarithms of numerator and denominator tell the size of a fraction up to a factor of
two. -/
theorem lt_inUnits {num den : ℕ} (hnum : 0 < num) (hden : 0 < den) (e : ℤ) :
    (2 : ℚ) ^ ((num.log2 : ℤ) - den.log2 - 1 - e) < inUnits num den e := by
  have hlow : (2 : ℚ) ^ (num.log2 : ℤ) ≤ num := by
    rw [zpow_natCast]
    exact_mod_cast Nat.log2_self_le hnum.ne'
  have hhigh : (den : ℚ) < 2 ^ ((den.log2 : ℤ) + 1) := by
    exact_mod_cast (Nat.lt_log2_self : den < 2 ^ (den.log2 + 1))
  have hpos : (0 : ℚ) < den := by exact_mod_cast hden
  have hexp : (num.log2 : ℤ) - den.log2 - 1 - e = num.log2 - (den.log2 + 1) + -e := by ring
  rw [inUnits, hexp, zpow_add₀ (by norm_num), zpow_sub₀ (by norm_num)]
  apply mul_lt_mul_of_pos_right _ (by positivity)
  rw [div_lt_div_iff₀ (by positivity) hpos]
  calc (2 : ℚ) ^ (num.log2 : ℤ) * den ≤ num * den := by gcongr
    _ < num * 2 ^ ((den.log2 : ℤ) + 1) := by gcongr

theorem inUnits_lt {num den : ℕ} (hnum : 0 < num) (hden : 0 < den) (e : ℤ) :
    inUnits num den e < (2 : ℚ) ^ ((num.log2 : ℤ) - den.log2 + 1 - e) := by
  have hhigh : (num : ℚ) < 2 ^ ((num.log2 : ℤ) + 1) := by
    exact_mod_cast (Nat.lt_log2_self : num < 2 ^ (num.log2 + 1))
  have hlow : (2 : ℚ) ^ (den.log2 : ℤ) ≤ den := by
    rw [zpow_natCast]
    exact_mod_cast Nat.log2_self_le hden.ne'
  have hpos : (0 : ℚ) < den := by exact_mod_cast hden
  have hexp : (num.log2 : ℤ) - den.log2 + 1 - e = num.log2 + 1 - den.log2 + -e := by ring
  rw [inUnits, hexp, zpow_add₀ (by norm_num), zpow_sub₀ (by norm_num)]
  apply mul_lt_mul_of_pos_right _ (by positivity)
  rw [div_lt_div_iff₀ hpos (by positivity)]
  calc (num : ℚ) * 2 ^ (den.log2 : ℤ) ≤ num * den := by gcongr
    _ < 2 ^ ((num.log2 : ℤ) + 1) * den := by gcongr

/-! ## The choice of the exponent -/

/-- The search stops at the first exponent where the mantissa fits, or at the last one. -/
theorem fitExponent_spec (num den tries : ℕ) (low : ℤ) :
    low ≤ fitExponent num den tries low ∧ fitExponent num den tries low ≤ low + tries ∧
      (∀ e, low ≤ e → e < fitExponent num den tries low → mantissaLimit ≤ mantissaAt num den e) ∧
      (fitExponent num den tries low < low + tries →
        mantissaAt num den (fitExponent num den tries low) < mantissaLimit) := by
  induction tries generalizing low with
  | zero =>
    rw [fitExponent]
    exact ⟨le_refl _, by simp, fun e he hlt => by omega, fun h => by simp at h⟩
  | succ tries ih =>
    rw [fitExponent]
    by_cases hfits : mantissaAt num den low < mantissaLimit
    · rw [if_pos hfits]
      exact ⟨le_refl _, by push_cast; omega, fun e he hlt => by omega, fun _ => hfits⟩
    · rw [if_neg hfits]
      obtain ⟨hlow, hhigh, hpassed, hlast⟩ := ih (low + 1)
      refine ⟨by omega, by push_cast; omega, fun e he hlt => ?_, fun h => hlast ?_⟩
      · rcases Int.lt_or_eq_of_le he with hlt' | rfl
        · exact hpassed e (by omega) hlt
        · exact Nat.le_of_not_lt hfits
      · push_cast at h ⊢
        omega

theorem fitExponent_eq {num den tries : ℕ} {low e : ℤ} (hlow : low ≤ e) (hhigh : e ≤ low + tries)
    (hpassed : ∀ e', low ≤ e' → e' < e → mantissaLimit ≤ mantissaAt num den e')
    (hfits : mantissaAt num den e < mantissaLimit) : fitExponent num den tries low = e := by
  obtain ⟨hlow', -, hpassed', hlast⟩ := fitExponent_spec num den tries low
  rcases Int.lt_trichotomy (fitExponent num den tries low) e with hlt | heq | hgt
  · have hstop := hlast (by omega)
    have hmore := hpassed _ hlow' hlt
    omega
  · exact heq
  · have hmore := hpassed' e hlow hgt
    omega

variable {num den m : ℕ} {e : ℤ}

/-- The exponent that the search starts with. -/
def start (num den : ℕ) : ℤ := max minExponent ((num.log2 : ℤ) - den.log2 - 54)

theorem minExponent_le_start (num den : ℕ) : minExponent ≤ start num den := le_max_left _ _

/-- Up to the start the mantissa has a bit too many, unless there is no smaller exponent. -/
theorem le_inUnits_of_le_start (hnum : 0 < num) (hden : 0 < den)
    (hstart : minExponent < start num den) (h : e ≤ start num den) :
    (2 : ℚ) ^ 53 ≤ inUnits num den e := by
  have hlogs : start num den = (num.log2 : ℤ) - den.log2 - 54 :=
    max_eq_right (by rw [start] at hstart; omega)
  have hpow : (2 : ℚ) ^ (53 : ℤ) ≤ 2 ^ ((num.log2 : ℤ) - den.log2 - 1 - e) :=
    zpow_le_zpow_right₀ (by norm_num) (by omega)
  have hsize := lt_inUnits hnum hden e
  norm_num at hpow ⊢
  linarith

/-- Three exponents later it has a bit less than it may have. -/
theorem inUnits_lt_of_start_le (hnum : 0 < num) (hden : 0 < den) (h : start num den + 3 ≤ e) :
    inUnits num den e < (2 : ℚ) ^ 52 := by
  have hlogs : (num.log2 : ℤ) - den.log2 - 54 ≤ start num den := le_max_right _ _
  have hpow : (2 : ℚ) ^ ((num.log2 : ℤ) - den.log2 + 1 - e) ≤ 2 ^ (52 : ℤ) :=
    zpow_le_zpow_right₀ (by norm_num) (by omega)
  have hsize := inUnits_lt hnum hden e
  norm_num at hpow ⊢
  linarith

theorem ofFraction_eq (negative : Bool) (num den : ℕ) : ofFraction negative num den =
    if fitExponent num den 3 (start num den) ≤ maxExponent then
      .finite negative (mantissaAt num den (fitExponent num den 3 (start num den)))
        (fitExponent num den 3 (start num den))
    else .infinite negative := rfl

/-! ## Canonical numbers -/

/-- The mantissas and exponents of finite numbers, each number once.  The mantissa is as large
as it can be, unless the exponent is the smallest one. -/
structure Canonical (m : ℕ) (e : ℤ) : Prop where
  lt_limit : m < mantissaLimit
  minExponent_le : minExponent ≤ e
  le_maxExponent : e ≤ maxExponent
  full : 2 ^ 52 ≤ m ∨ e = minExponent

theorem mantissaLimit_eq : mantissaLimit = 2 ^ 53 := rfl

theorem cast_mantissaLimit : ((mantissaLimit : ℕ) : ℚ) = 2 ^ 53 := by
  rw [mantissaLimit_eq]
  norm_num

/-- Where a mantissa does not fit, the next one is almost full. -/
theorem le_inUnits_of_passed (hden : 0 < den)
    (h : mantissaLimit ≤ mantissaAt num den (e - 1)) :
    (2 : ℚ) ^ 52 - 1 / 4 ≤ inUnits num den e := by
  have hbelow := (nearest_mantissaAt num hden (e - 1)).below
  have hlimit : (2 : ℚ) ^ 53 ≤ mantissaAt num den (e - 1) := by
    rw [mantissaLimit_eq] at h
    exact_mod_cast h
  rw [inUnits_sub_one] at hbelow
  linarith

/-- A number that is almost full is full when it is rounded. -/
theorem full_of_nearest {x : ℚ} (h : Nearest x m) (hx : (2 : ℚ) ^ 52 - 1 / 4 ≤ x) :
    2 ^ 52 ≤ m := by
  apply le_of_nearest_even h (by norm_num)
  push_cast
  linarith

/-- What comes out of rounding a fraction is canonical and nearest at its exponent. -/
theorem canonical_ofFraction {negative sign : Bool} (hnum : 0 < num) (hden : 0 < den)
    (h : ofFraction negative num den = .finite sign m e) :
    sign = negative ∧ Canonical m e ∧ Nearest (inUnits num den e) m := by
  have hmin := minExponent_le_start num den
  obtain ⟨hlow, -, hpassed, hlast⟩ := fitExponent_spec num den 3 (start num den)
  rw [ofFraction_eq] at h
  by_cases hmax : fitExponent num den 3 (start num den) ≤ maxExponent
  swap
  · rw [if_neg hmax] at h
    exact absurd h (by simp)
  rw [if_pos hmax, finite.injEq] at h
  obtain ⟨rfl, hm, he⟩ := h
  rw [he] at hm hlow hpassed hlast hmax
  have hnear := nearest_mantissaAt num hden e
  rw [hm] at hnear hlast
  refine ⟨rfl, ⟨?_, by omega, hmax, ?_⟩, hnear⟩
  · by_cases hstop : e < start num den + 3
    · exact hlast hstop
    · have hsize := inUnits_lt_of_start_le hnum hden (Int.not_lt.mp hstop)
      have hbelow := hnear.below
      have hless : (m : ℚ) < 2 ^ 53 := by linarith
      rw [mantissaLimit_eq]
      exact_mod_cast hless
  · by_cases hleast : e = minExponent
    · exact Or.inr hleast
    left
    rcases Int.lt_or_eq_of_le hlow with hstep | rfl
    · exact full_of_nearest hnear
        (le_inUnits_of_passed hden (hpassed (e - 1) (by omega) (by omega)))
    · have hsize := le_inUnits_of_le_start hnum hden (by omega) (le_refl _)
      exact full_of_nearest hnear (by linarith)

/-- A canonical number comes out of every fraction that it is nearest to.  Below a power of two
the fraction must be nearer, since there the next number is. -/
theorem ofFraction_eq_finite (negative : Bool) (hnum : 0 < num) (hden : 0 < den)
    (hc : Canonical m e) (hnear : Nearest (inUnits num den e) m)
    (hpower : m = 2 ^ 52 → minExponent < e → (2 : ℚ) ^ 52 - 1 / 4 ≤ inUnits num den e) :
    ofFraction negative num den = .finite negative m e := by
  have hmin := hc.minExponent_le
  have hleast := minExponent_le_start num den
  have hfull : minExponent < e → (2 : ℚ) ^ 52 - 1 / 4 ≤ inUnits num den e := by
    intro he
    have hm : 2 ^ 52 ≤ m := hc.full.resolve_right (by omega)
    rcases Nat.lt_or_eq_of_le hm with hlt | heq
    · have hstep : (2 : ℚ) ^ 52 + 1 ≤ m := by exact_mod_cast hlt
      have hbelow := hnear.below
      linarith
    · exact hpower heq.symm he
  have hmantissa : mantissaAt num den e = m := nearest_unique (nearest_mantissaAt num hden e) hnear
  have hlow : start num den ≤ e := by
    by_contra hlt
    have hsize := le_inUnits_of_le_start (e := e) hnum hden (by omega) (by omega)
    have hless : (m : ℚ) + 1 ≤ 2 ^ 53 := by exact_mod_cast hc.lt_limit
    have habove := hnear.above
    linarith
  have hhigh : e ≤ start num den + (3 : ℕ) := by
    by_contra hlt
    push_cast at hlt
    have hsize := inUnits_lt_of_start_le (e := e - 1) hnum hden (by omega)
    have hmore := hfull (by omega)
    rw [inUnits_sub_one] at hsize
    linarith
  have hexponent : fitExponent num den 3 (start num den) = e := by
    apply fitExponent_eq hlow hhigh
    · intro e' he' hlt
      apply le_of_nearest_even (nearest_mantissaAt num hden e') (by decide)
      have hmore := hfull (by omega)
      have hstep := inUnits_antitone num den (Int.le_sub_one_of_lt hlt)
      rw [inUnits_sub_one] at hstep
      rw [cast_mantissaLimit]
      linarith
    · rw [hmantissa]
      exact hc.lt_limit
  rw [ofFraction_eq, hexponent, hmantissa, if_pos hc.le_maxExponent]

end Binary64
end HomeSync
