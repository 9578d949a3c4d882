import HomeSync.Json.Basic
import HomeSync.Proofs.Text.Utf8

/-
The literals of texts and integers mean what they were written for.

Every text has a literal, with escapes for quotes, backslashes and control
characters, and every integer of sixty-four bits has one in decimal digits.  Asking
what the literal means gives the text or the integer back.
-/
namespace HomeSync

namespace Hex

theorem digit?_digitChar {n : Nat} (h : n < 16) : digit? (digitChar n) = some n := by
  have hall : ∀ n < 16, digit? (digitChar n) = some n := by decide
  exact hall n h

theorem padded_four (n : Nat) :
    padded 4 n =
      [digitChar (n / 16 / 16 / 16 % 16), digitChar (n / 16 / 16 % 16), digitChar (n / 16 % 16),
        digitChar (n % 16)] := rfl

/-- The four digits of a number below 65536 are read as that number. -/
theorem value?_padded_four {n : Nat} (h : n < 65536) : value? (padded 4 n) = some n := by
  have hsum : (((0 * 16 + n / 16 / 16 / 16 % 16) * 16 + n / 16 / 16 % 16) * 16
      + n / 16 % 16) * 16 + n % 16 = n := by omega
  rw [padded_four, value?]
  simp only [List.foldlM_cons, List.foldlM_nil, Option.bind_eq_bind, Option.pure_def,
    digit?_digitChar (Nat.mod_lt _ (Nat.zero_lt_succ 15)), Option.map_some, Option.bind_some, hsum]

end Hex

namespace Json

/-! ## Texts -/

/-- A character that begins no escape stands for itself. -/
theorem unescape_plain {c : Char} (h : c ≠ '\\') (rest : List Char) :
    unescape (c :: rest) = (unescape rest).map (c :: ·) := by
  rw [unescape.eq_def]
  split <;> simp_all

theorem unescape_escape {c e : Char} (h : escaped? c = some e) (rest : List Char) :
    unescape ('\\' :: c :: rest) = (unescape rest).map (e :: ·) := by
  have hne : c ≠ 'u' := by
    rintro rfl
    have hnone : escaped? 'u' = none := rfl
    simp [hnone] at h
  rw [unescape, h]
  intro a b c' d rest' hc
  exact absurd hc hne

/-- Four digits after `\u` stand for the character of that number, unless the number
is half of a pair. -/
theorem unescape_code {n : Nat} (h : n < 0xD800) (rest : List Char) :
    unescape ('\\' :: 'u' :: Hex.padded 4 n ++ rest) =
      (unescape rest).map (Char.ofNat n :: ·) := by
  have hvalue := Hex.value?_padded_four (n := n) (by omega)
  have hhigh : isHighSurrogate n = false := by
    simp only [isHighSurrogate, Bool.and_eq_false_iff, decide_eq_false_iff_not]
    omega
  have hlow : isLowSurrogate n = false := by
    simp only [isLowSurrogate, Bool.and_eq_false_iff, decide_eq_false_iff_not]
    omega
  rw [Hex.padded_four] at hvalue ⊢
  simp only [List.cons_append, List.nil_append]
  rw [unescape, hvalue]
  simp only [hhigh, hlow, Bool.false_eq_true, if_false]

/-- A character is read back from the characters that stand for it. -/
theorem unescape_escapeChar (c : Char) (rest : List Char) :
    unescape (escapeChar c ++ rest) = (unescape rest).map (c :: ·) := by
  have hcode : ∀ n, c.toNat = n → Char.ofNat n = c := by
    rintro n rfl
    exact Char.ofNat_toNat c
  rw [escapeChar]
  repeat' split
  · subst c
    exact unescape_escape rfl rest
  · subst c
    exact unescape_escape rfl rest
  · rename_i h
    obtain rfl := hcode 8 h
    exact unescape_escape rfl rest
  · rename_i h
    obtain rfl := hcode 12 h
    exact unescape_escape rfl rest
  · subst c
    exact unescape_escape rfl rest
  · subst c
    exact unescape_escape rfl rest
  · subst c
    exact unescape_escape rfl rest
  · rename_i h
    have hread := unescape_code (n := c.toNat) (by omega) rest
    rwa [Char.ofNat_toNat] at hread
  · rename_i h _ _ _ _ _ _
    exact unescape_plain h rest

theorem unescape_flatMap_escapeChar (cs : List Char) :
    unescape (cs.flatMap escapeChar) = some cs := by
  induction cs with
  | nil => rw [List.flatMap_nil, unescape]
  | cons c rest ih => rw [List.flatMap_cons, unescape_escapeChar, ih, Option.map_some]

/-- Every text is what its literal means. -/
theorem textOf?_literal (s : String) : textOf? (literal s) = some s := by
  rw [textOf?, literal, Utf8.decode?_encode, Option.bind_some, String.toList_ofList,
    unescape_flatMap_escapeChar, Option.map_some, String.ofList_toList]

/-! ## Integers

The digits of a number are those of its tenth and one more. -/

theorem encode_digitChar {k : Nat} (h : k < 10) :
    Utf8.encode (String.ofList [Nat.digitChar k]) = [UInt8.ofNat (48 + k)] := by
  have hall : ∀ k < 10, String.utf8EncodeChar (Nat.digitChar k) = [UInt8.ofNat (48 + k)] := by
    decide
  rw [Utf8.encode, String.toList_ofList, List.flatMap_cons, List.flatMap_nil, List.append_nil]
  exact hall k h

theorem encode_toString_of_lt {m : Nat} (h : m < 10) :
    Utf8.encode (toString m) = [UInt8.ofNat (48 + m)] := by
  rw [Nat.toString_eq_ofList_toDigits, Nat.toDigits_of_lt_base h, encode_digitChar h]

theorem encode_toString_of_le {m : Nat} (h : 10 ≤ m) :
    Utf8.encode (toString m) =
      Utf8.encode (toString (m / 10)) ++ [UInt8.ofNat (48 + m % 10)] := by
  have hdigits : toString m = toString (m / 10) ++ String.ofList [Nat.digitChar (m % 10)] := by
    rw [Nat.toString_eq_ofList_toDigits, Nat.toDigits_of_base_le (by omega) h, String.ofList_append,
      Nat.toString_eq_ofList_toDigits]
  rw [hdigits, Utf8.encode_append, encode_digitChar (Nat.mod_lt m (by omega))]

theorem encode_toString_negSucc (m : Nat) :
    Utf8.encode (toString (Int.negSucc m)) = 0x2D :: Utf8.encode (toString (m + 1)) := by
  have htext : toString (Int.negSucc m) = "-" ++ toString (m + 1) := rfl
  rw [htext, Utf8.encode_append]
  rfl

/-- One more digit makes ten times the number and the digit. -/
theorem digitsValue?_concat {digits : List UInt8} {n k : Nat} (h : digitsValue? digits = some n)
    (hk : k < 10) : digitsValue? (digits ++ [UInt8.ofNat (48 + k)]) = some (n * 10 + k) := by
  have hdigit : ∀ k < 10, (0x30 ≤ UInt8.ofNat (48 + k) ∧ UInt8.ofNat (48 + k) ≤ 0x39) ∧
      (UInt8.ofNat (48 + k)).toNat - 0x30 = k := by decide
  rw [digitsValue?] at h ⊢
  rw [List.foldlM_append, h]
  simp only [Option.bind_eq_bind, Option.bind_some, List.foldlM_cons, List.foldlM_nil,
    if_pos (hdigit k hk).1, (hdigit k hk).2, Option.pure_def]

theorem digitsValue?_encode_toString (m : Nat) :
    digitsValue? (Utf8.encode (toString m)) = some m := by
  induction m using Nat.strongRecOn with
  | ind m ih =>
    by_cases hm : m < 10
    · rw [encode_toString_of_lt hm]
      have hone : digitsValue? ([] ++ _) = some (0 * 10 + m) := digitsValue?_concat rfl hm
      rwa [List.nil_append, Nat.zero_mul, Nat.zero_add] at hone
    · rw [encode_toString_of_le (by omega)]
      have hmore := digitsValue?_concat (ih (m / 10) (by omega)) (Nat.mod_lt m (by omega))
      rw [hmore]
      congr 1
      omega

theorem integerOf?_of_digitsValue? {digits : List UInt8} {m : Nat}
    (h : digitsValue? digits = some m) : integerOf? digits = some (Int.ofNat m) := by
  unfold integerOf?
  split
  · rename_i rest
    have hnone : digitsValue? (0x2D :: rest) = none := by
      rw [digitsValue?, List.foldlM_cons]
      rfl
    simp [hnone] at h
  · rw [h]
    rfl

theorem integerOf?_encode_toString (n : Int) :
    integerOf? (Utf8.encode (toString n)) = some n := by
  cases n with
  | ofNat m => exact integerOf?_of_digitsValue? (digitsValue?_encode_toString m)
  | negSucc m =>
    rw [encode_toString_negSucc, integerOf?, digitsValue?_encode_toString]

/-- Every word is what its decimal digits mean. -/
theorem wordOf?_encode_toString (n : Int64) :
    wordOf? (Utf8.encode (toString n.toInt)) = some n := by
  have hlow := n.le_toInt
  have hhigh := n.toInt_le
  rw [wordOf?, integerOf?_encode_toString]
  simp only [Int64.ofInt_toInt]
  rw [if_pos ⟨hlow, hhigh⟩]

end Json
end HomeSync
