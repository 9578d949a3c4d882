import HomeSync.Binary64.Text
import HomeSync.Proofs.Binary64.Rounding

/-
What a number that is read from text is.

Reading finds the value of the digits and scales it by a power of ten, which is a fraction to
round.  Only numbers far outside the range are settled without it, so a text of moderate size
gives what rounding gives: `ofDecimal_eq`.  And whatever is read, if it is finite then it is
canonical: `canonical_ofString?`.
-/
namespace HomeSync
namespace Binary64

/-! ## Values of digits -/

/-- The value of digits, the most significant one first. -/
def valueOf (digits : List ℕ) : ℕ := digits.foldl (fun acc d => acc * 10 + d) 0

theorem le_foldl_digits (digits : List ℕ) (acc : ℕ) :
    acc * 10 ^ digits.length ≤ digits.foldl (fun acc d => acc * 10 + d) acc := by
  induction digits generalizing acc with
  | nil => simp
  | cons d rest ih =>
    calc acc * 10 ^ (rest.length + 1) = acc * 10 * 10 ^ rest.length := by ring
      _ ≤ (acc * 10 + d) * 10 ^ rest.length := Nat.mul_le_mul_right _ (Nat.le_add_right _ _)
      _ ≤ rest.foldl (fun acc d => acc * 10 + d) (acc * 10 + d) := ih _

theorem foldl_digits_lt {digits : List ℕ} (h : ∀ d ∈ digits, d < 10) (acc : ℕ) :
    digits.foldl (fun acc d => acc * 10 + d) acc < (acc + 1) * 10 ^ digits.length := by
  induction digits generalizing acc with
  | nil => simp
  | cons d rest ih =>
    have hd := h d List.mem_cons_self
    calc rest.foldl (fun acc d => acc * 10 + d) (acc * 10 + d)
        < (acc * 10 + d + 1) * 10 ^ rest.length :=
          ih (fun d' hd' => h d' (List.mem_cons_of_mem d hd')) _
      _ ≤ (acc + 1) * 10 * 10 ^ rest.length := Nat.mul_le_mul_right _ (by omega)
      _ = (acc + 1) * 10 ^ (rest.length + 1) := by ring

theorem valueOf_dropWhile (digits : List ℕ) :
    valueOf (digits.dropWhile (· == 0)) = valueOf digits := by
  induction digits with
  | nil => rfl
  | cons d rest ih =>
    by_cases hd : d = 0
    · subst hd
      rw [List.dropWhile_cons_of_pos (by rfl), ih]
      rfl
    · rw [List.dropWhile_cons_of_neg (by simpa using hd)]

theorem valueOf_lt {digits : List ℕ} (h : ∀ d ∈ digits, d < 10) :
    valueOf digits < 10 ^ digits.length := by
  have hlt := foldl_digits_lt h 0
  rwa [Nat.zero_add, Nat.one_mul] at hlt

/-- The first digit that is left counts, so the length tells the size. -/
theorem le_valueOf_of_dropWhile {digits : List ℕ} (h : digits.dropWhile (· == 0) ≠ []) :
    10 ^ ((digits.dropWhile (· == 0)).length - 1) ≤ valueOf (digits.dropWhile (· == 0)) := by
  have hfirst := List.head_dropWhile_not (· == 0) h
  cases hl : digits.dropWhile (· == 0) with
  | nil => exact absurd hl h
  | cons d rest =>
    simp only [hl, List.head_cons, beq_eq_false_iff_ne] at hfirst
    rw [List.length_cons, Nat.add_sub_cancel]
    calc 10 ^ rest.length ≤ (0 * 10 + d) * 10 ^ rest.length :=
          Nat.le_mul_of_pos_left _ (by omega)
      _ ≤ rest.foldl (fun acc d => acc * 10 + d) (0 * 10 + d) := le_foldl_digits rest _

/-! ## Scaled digits -/

theorem inUnits_decimal (n : ℕ) (x e : ℤ) :
    inUnits (n * Nat.pow 10 x.toNat) (Nat.pow 10 (-x).toNat) e = n * 10 ^ x * 2 ^ (-e) := by
  have hpow : ∀ k, ((Nat.pow 10 k : ℕ) : ℚ) = 10 ^ k := fun k => Nat.cast_pow 10 k
  rw [inUnits, Nat.cast_mul, hpow, hpow, zpow_eq_div 10 x, mul_div_assoc]

variable {digits : List ℕ} {x : ℤ}

/-- Decimals of moderate size are rounded. -/
theorem ofDecimal_eq (negative : Bool) (hdigits : ∀ d ∈ digits, d < 10)
    (hlow : (10 : ℚ) ^ (-331 : ℤ) ≤ valueOf digits * 10 ^ x)
    (hhigh : (valueOf digits : ℚ) * 10 ^ x < 10 ^ (310 : ℤ)) :
    ofDecimal negative (digits.dropWhile (· == 0)) x =
      ofFraction negative (valueOf digits * Nat.pow 10 x.toNat) (Nat.pow 10 (-x).toNat) := by
  rw [← valueOf_dropWhile] at hlow hhigh ⊢
  have hsome : digits.dropWhile (· == 0) ≠ [] := by
    intro hnone
    rw [hnone] at hlow
    have hpos : (0 : ℚ) < 10 ^ (-331 : ℤ) := by positivity
    simp only [valueOf, List.foldl_nil, Nat.cast_zero, zero_mul] at hlow
    linarith
  have hless := valueOf_lt fun d (hd : d ∈ digits.dropWhile (· == 0)) =>
    hdigits d ((List.dropWhile_sublist _).subset hd)
  have hmore := le_valueOf_of_dropWhile hsome
  obtain ⟨ds, hds⟩ : ∃ ds, ds = digits.dropWhile (· == 0) := ⟨_, rfl⟩
  rw [← hds] at hlow hhigh hsome hless hmore ⊢
  have hpos : 0 < ds.length := List.length_pos_iff.mpr hsome
  have hstep : ∀ a b : ℤ, (10 : ℚ) ^ a < 10 ^ b → a < b :=
    fun a b => (zpow_lt_zpow_iff_right₀ (by norm_num)).mp
  have hlarge : -331 < (ds.length : ℤ) + x := by
    apply hstep
    have hless' : (valueOf ds : ℚ) < 10 ^ (ds.length : ℤ) := by exact_mod_cast hless
    rw [zpow_add₀ (by norm_num)]
    exact lt_of_le_of_lt hlow (mul_lt_mul_of_pos_right hless' (by positivity))
  have hsmall : ((ds.length - 1 : ℕ) : ℤ) + x < 310 := by
    apply hstep
    have hmore' : (10 : ℚ) ^ ((ds.length - 1 : ℕ) : ℤ) ≤ valueOf ds := by exact_mod_cast hmore
    rw [zpow_add₀ (by norm_num)]
    exact lt_of_le_of_lt (mul_le_mul_of_nonneg_right hmore' (by positivity)) hhigh
  rw [ofDecimal, if_neg, if_neg (by omega)]
  · rfl
  · rintro (hnil | hsize)
    · exact hsome (List.isEmpty_iff.mp hnil)
    · omega

/-- A whole number is rounded, or it is far too large. -/
theorem ofDecimal_whole (negative : Bool) (hpos : 0 < valueOf digits) :
    ofDecimal negative (digits.dropWhile (· == 0)) 0 = .infinite negative ∨
      ofDecimal negative (digits.dropWhile (· == 0)) 0 =
        ofFraction negative (valueOf digits) 1 := by
  have hsome : (digits.dropWhile (· == 0)).isEmpty = false := by
    rw [← Bool.not_eq_true, List.isEmpty_iff]
    intro hnone
    rw [← valueOf_dropWhile, hnone] at hpos
    exact absurd hpos (by decide)
  have hsize : ¬ (((digits.dropWhile (· == 0)).length : ℤ) + 0 < -330) := by omega
  rw [ofDecimal, if_neg (by simp only [hsome, hsize]; decide)]
  split
  · exact Or.inl rfl
  · right
    show ofFraction negative (valueOf (digits.dropWhile (· == 0)) * 1) 1 = _
    rw [valueOf_dropWhile, Nat.mul_one]

theorem canonical_zero : Canonical 0 minExponent :=
  ⟨by decide, le_refl _, by decide, Or.inr rfl⟩

theorem canonical_ofDecimal {negative sign : Bool} {m : ℕ} {e : ℤ}
    (h : ofDecimal negative (digits.dropWhile (· == 0)) x = .finite sign m e) :
    Canonical m e := by
  rw [ofDecimal] at h
  by_cases hzero : (digits.dropWhile (· == 0)).isEmpty = true ∨
      ((digits.dropWhile (· == 0)).length : ℤ) + x < -330
  · rw [if_pos hzero, finite.injEq] at h
    obtain ⟨-, rfl, rfl⟩ := h
    exact canonical_zero
  · rw [if_neg hzero] at h
    obtain ⟨hsome, -⟩ := not_or.mp hzero
    split at h
    · exact absurd h (by simp)
    · have hvalue := le_valueOf_of_dropWhile (fun hnil => hsome (List.isEmpty_iff.mpr hnil))
      have hpos : 0 < valueOf (digits.dropWhile (· == 0)) :=
        lt_of_lt_of_le (Nat.pow_pos (by decide)) hvalue
      exact (canonical_ofFraction (Nat.mul_pos hpos (Nat.pow_pos (by decide)))
        (Nat.pow_pos (by decide)) h).2.1

/-! ## Texts -/

theorem ofString?_eq (s : String) : ofString? s =
    if (splitSign s.toList).2.map Char.toLower = ['i', 'n', 'f'] ∨
        (splitSign s.toList).2.map Char.toLower = ['i', 'n', 'f', 'i', 'n', 'i', 't', 'y'] then
      some (.infinite (splitSign s.toList).1)
    else if (splitSign s.toList).2.map Char.toLower = ['n', 'a', 'n'] then some .nan
    else decimal? (splitSign s.toList).1 (splitSign s.toList).2 := rfl

theorem canonical_decimal? {negative sign : Bool} {cs : List Char} {m : ℕ} {e : ℤ}
    (h : decimal? negative cs = some (.finite sign m e)) : Canonical m e := by
  obtain ⟨fraction, rest, heq⟩ : ∃ fraction rest, decimal? negative cs =
      if (spanDigits cs).1.isEmpty ∧ fraction.isEmpty then none
      else (exponent? rest).map fun x => ofDecimal negative
        (((spanDigits cs).1 ++ fraction).dropWhile (· == 0)) (x - fraction.length) :=
    ⟨_, _, rfl⟩
  rw [heq] at h
  split at h
  · simp at h
  · obtain ⟨x, -, hx⟩ := Option.map_eq_some_iff.mp h
    exact canonical_ofDecimal hx

theorem canonical_ofString? {s : String} {sign : Bool} {m : ℕ} {e : ℤ}
    (h : ofString? s = some (.finite sign m e)) : Canonical m e := by
  rw [ofString?_eq] at h
  split at h
  · simp at h
  · split at h
    · simp at h
    · exact canonical_decimal? h

/-- The digits that characters stand for. -/
def digitsOf (cs : List Char) : List ℕ := cs.map fun c => c.toNat - 48

theorem digitsOf_lt {cs : List Char} (h : ∀ c ∈ cs, c.isDigit = true) :
    ∀ d ∈ digitsOf cs, d < 10 := by
  intro d hd
  obtain ⟨c, hc, rfl⟩ := List.mem_map.mp hd
  have hdigit := h c hc
  rw [Char.isDigit, Bool.and_eq_true, decide_eq_true_iff, decide_eq_true_iff] at hdigit
  have hle : c.toNat ≤ 57 := hdigit.2
  omega

theorem valueOf_digitsOf (cs : List Char) : valueOf (digitsOf cs) = Nat.ofDigitChars 10 cs 0 := by
  rw [valueOf, digitsOf, List.foldl_map, Nat.ofDigitChars_eq_foldl]
  congr 1
  funext acc c
  rw [Nat.mul_comm]
  rfl

theorem spanDigits_append {cs rest : List Char} (hcs : ∀ c ∈ cs, c.isDigit = true)
    (hrest : ∀ c ∈ rest.head?, c.isDigit = false) :
    spanDigits (cs ++ rest) = (digitsOf cs, rest) := by
  induction cs with
  | nil =>
    cases rest with
    | nil => rfl
    | cons c rest =>
      have hc : digit? c = none := by
        rw [digit?, hrest c rfl]
        rfl
      simp only [List.nil_append, spanDigits, hc]
      rfl
  | cons c cs ih =>
    have hc : digit? c = some (c.toNat - 48) := by
      rw [digit?, hcs c List.mem_cons_self]
      rfl
    have hrest := ih fun c' hc' => hcs c' (List.mem_cons_of_mem c hc')
    simp only [List.cons_append, spanDigits, hc, hrest]
    rfl

theorem spanDigits_of_digits {cs : List Char} (h : ∀ c ∈ cs, c.isDigit = true) :
    spanDigits cs = (digitsOf cs, []) := by
  have hspan : spanDigits (cs ++ []) = (digitsOf cs, []) := spanDigits_append h (by simp)
  rwa [List.append_nil] at hspan

theorem exists_cons_of_digits {cs : List Char} (hne : cs ≠ [])
    (h : ∀ c ∈ cs, c.isDigit = true) : ∃ c rest, cs = c :: rest ∧ c.isDigit = true := by
  cases cs with
  | nil => exact absurd rfl hne
  | cons c rest => exact ⟨c, rest, rfl, h c List.mem_cons_self⟩

theorem splitSign_of_digit {c : Char} {cs : List Char} (h : c.isDigit = true) :
    splitSign (c :: cs) = (false, c :: cs) := by
  have hminus : c ≠ '-' := fun heq => by simp [heq] at h
  have hplus : c ≠ '+' := fun heq => by simp [heq] at h
  rw [splitSign]
  · simp [hminus]
  · simp [hplus]

theorem toLower_of_isDigit {c : Char} (h : c.isDigit = true) : c.toLower = c := by
  rw [Char.isDigit, Bool.and_eq_true, decide_eq_true_iff, decide_eq_true_iff] at h
  have hlow : c.val.toNat ≤ 57 := h.2
  refine dif_neg fun hupper => ?_
  have hhigh : 65 ≤ c.val.toNat := hupper.1
  omega

/-- A text that starts with a digit is no word. -/
theorem ofString?_of_digit {s : String} {negative : Bool} {c : Char} {cs : List Char}
    (hsign : splitSign s.toList = (negative, c :: cs)) (hc : c.isDigit = true) :
    ofString? s = decimal? negative (c :: cs) := by
  have hword : ∀ first rest, Char.isDigit first = false →
      (c :: cs).map Char.toLower ≠ first :: rest := by
    intro first rest hfirst heq
    rw [List.map_cons, toLower_of_isDigit hc, List.cons.injEq] at heq
    rw [heq.1, hfirst] at hc
    exact Bool.noConfusion hc
  rw [ofString?_eq, hsign, if_neg, if_neg (hword _ _ rfl)]
  exact fun h => h.elim (hword _ _ rfl) (hword _ _ rfl)

theorem decimal?_whole (negative : Bool) {cs : List Char} (hcs : ∀ c ∈ cs, c.isDigit = true)
    (hne : cs ≠ []) :
    decimal? negative cs = some (ofDecimal negative ((digitsOf cs).dropWhile (· == 0)) 0) := by
  have hsome : (digitsOf cs).isEmpty = false := by
    rw [digitsOf, List.isEmpty_map, List.isEmpty_eq_false_iff]
    exact hne
  rw [decimal?, spanDigits_of_digits hcs]
  simp only [hsome, exponent?]
  simp

theorem decimal?_point (negative : Bool) {cs fs : List Char} (hcs : ∀ c ∈ cs, c.isDigit = true)
    (hfs : ∀ c ∈ fs, c.isDigit = true) (hne : cs ≠ []) :
    decimal? negative (cs ++ '.' :: fs) =
      some (ofDecimal negative ((digitsOf (cs ++ fs)).dropWhile (· == 0)) (-fs.length)) := by
  have hsome : (digitsOf cs).isEmpty = false := by
    rw [digitsOf, List.isEmpty_map, List.isEmpty_eq_false_iff]
    exact hne
  have hspan : spanDigits (cs ++ '.' :: fs) = (digitsOf cs, '.' :: fs) :=
    spanDigits_append hcs (by simp)
  rw [decimal?, hspan]
  simp only [hsome, spanDigits_of_digits hfs, exponent?]
  simp [digitsOf]

end Binary64
end HomeSync
