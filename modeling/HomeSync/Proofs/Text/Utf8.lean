import HomeSync.Text.Utf8

/-
Text survives its encoding.

The pieces of an encoded text are its characters, whatever follows the encoding.  So
both ways to decode give the text back, and a reader that looks for ASCII bytes only
finds them where the text has those characters.
-/
namespace HomeSync
namespace Utf8

/-! ## Numbers as bytes -/

theorem toNat_ofNat_of_lt {n : Nat} (h : n < 256) : (UInt8.ofNat n).toNat = n := by
  rw [UInt8.toNat_ofNat']
  exact Nat.mod_eq_of_lt h

theorem isTail_of_toNat {b : UInt8} {m : Nat} (hb : b.toNat = 128 + m) (hm : m < 64) :
    isTail b = true := by
  rw [isTail, Bool.and_eq_true, decide_eq_true_eq, decide_eq_true_eq, UInt8.le_iff_toNat_le,
    UInt8.le_iff_toNat_le]
  show 128 ≤ b.toNat ∧ b.toNat ≤ 191
  omega

theorem tailBits_of_toNat {b : UInt8} {m : Nat} (hb : b.toNat = 128 + m) : tailBits b = m :=
  Nat.sub_eq_of_eq_add' hb

/-- After most leading bytes any tail may come.  After four of them its range is
smaller. -/
theorem isSecond_of_toNat {lead b : UInt8} {m : Nat} (hb : b.toNat = 128 + m) (hm : m < 64)
    (hE0 : lead.toNat = 224 → 32 ≤ m) (hED : lead.toNat = 237 → m < 32)
    (hF0 : lead.toNat = 240 → 16 ≤ m) (hF4 : lead.toNat = 244 → m < 16) :
    isSecond lead b = true := by
  rw [isSecond]
  repeat' split
  · rename_i h
    have := hE0 (congrArg UInt8.toNat h)
    simp only [Bool.and_eq_true, decide_eq_true_eq, UInt8.le_iff_toNat_le]
    show 160 ≤ b.toNat ∧ b.toNat ≤ 191
    omega
  · rename_i h
    have := hED (congrArg UInt8.toNat h)
    simp only [Bool.and_eq_true, decide_eq_true_eq, UInt8.le_iff_toNat_le]
    show 128 ≤ b.toNat ∧ b.toNat ≤ 159
    omega
  · rename_i h
    have := hF0 (congrArg UInt8.toNat h)
    simp only [Bool.and_eq_true, decide_eq_true_eq, UInt8.le_iff_toNat_le]
    show 144 ≤ b.toNat ∧ b.toNat ≤ 191
    omega
  · rename_i h
    have := hF4 (congrArg UInt8.toNat h)
    simp only [Bool.and_eq_true, decide_eq_true_eq, UInt8.le_iff_toNat_le]
    show 128 ≤ b.toNat ∧ b.toNat ≤ 143
    omega
  · exact isTail_of_toNat hb hm

/-! ## The first character

The bytes of a character are given by the bits that they carry. -/

section Front

variable {b b₁ b₂ b₃ : UInt8} {m m₁ m₂ m₃ : Nat} (rest : List UInt8)

theorem front_one (hb : b.toNat < 128) : front b rest = (some (Char.ofNat b.toNat), rest) := by
  have hascii : b < 0x80 := UInt8.lt_iff_toNat_lt.mpr hb
  unfold front
  rw [if_pos hascii]

theorem not_lt_of_toNat (hb : 128 ≤ b.toNat) : ¬ b < 0x80 := by
  rw [UInt8.lt_iff_toNat_lt]
  exact Nat.not_lt.mpr hb

theorem front_two (hb : b.toNat = 192 + m) (hm : 2 ≤ m ∧ m < 32) (h₁ : b₁.toNat = 128 + m₁)
    (hm₁ : m₁ < 64) :
    front b (b₁ :: rest) = (some (Char.ofNat (m * 64 + m₁)), rest) := by
  have hlead : (0xC2 ≤ b && b ≤ 0xDF) = true := by
    simp only [Bool.and_eq_true, decide_eq_true_eq, UInt8.le_iff_toNat_le]
    show 194 ≤ b.toNat ∧ b.toNat ≤ 223
    omega
  have hbits : b.toNat - 0xC0 = m := by omega
  unfold front
  rw [if_neg (not_lt_of_toNat (by omega)), if_pos hlead]
  dsimp only
  rw [if_pos (isTail_of_toNat h₁ hm₁), hbits, tailBits_of_toNat h₁]

theorem front_three (hb : b.toNat = 224 + m) (hm : m < 16) (h₁ : b₁.toNat = 128 + m₁)
    (hsecond : isSecond b b₁ = true) (h₂ : b₂.toNat = 128 + m₂) (hm₂ : m₂ < 64) :
    front b (b₁ :: b₂ :: rest) = (some (Char.ofNat (m * 4096 + m₁ * 64 + m₂)), rest) := by
  have htwo : ¬ (0xC2 ≤ b && b ≤ 0xDF) = true := by
    simp only [Bool.and_eq_true, decide_eq_true_eq, UInt8.le_iff_toNat_le]
    show ¬ (194 ≤ b.toNat ∧ b.toNat ≤ 223)
    omega
  have hlead : (0xE0 ≤ b && b ≤ 0xEF) = true := by
    simp only [Bool.and_eq_true, decide_eq_true_eq, UInt8.le_iff_toNat_le]
    show 224 ≤ b.toNat ∧ b.toNat ≤ 239
    omega
  have hbits : b.toNat - 0xE0 = m := by omega
  unfold front
  rw [if_neg (not_lt_of_toNat (by omega)), if_neg htwo, if_pos hlead]
  dsimp only
  rw [if_pos hsecond, if_pos (isTail_of_toNat h₂ hm₂), hbits, tailBits_of_toNat h₁,
    tailBits_of_toNat h₂]

theorem front_four (hb : b.toNat = 240 + m) (hm : m < 5) (h₁ : b₁.toNat = 128 + m₁)
    (hsecond : isSecond b b₁ = true) (h₂ : b₂.toNat = 128 + m₂) (hm₂ : m₂ < 64)
    (h₃ : b₃.toNat = 128 + m₃) (hm₃ : m₃ < 64) :
    front b (b₁ :: b₂ :: b₃ :: rest) =
      (some (Char.ofNat (m * 262144 + m₁ * 4096 + m₂ * 64 + m₃)), rest) := by
  have htwo : ¬ (0xC2 ≤ b && b ≤ 0xDF) = true := by
    simp only [Bool.and_eq_true, decide_eq_true_eq, UInt8.le_iff_toNat_le]
    show ¬ (194 ≤ b.toNat ∧ b.toNat ≤ 223)
    omega
  have hthree : ¬ (0xE0 ≤ b && b ≤ 0xEF) = true := by
    simp only [Bool.and_eq_true, decide_eq_true_eq, UInt8.le_iff_toNat_le]
    show ¬ (224 ≤ b.toNat ∧ b.toNat ≤ 239)
    omega
  have hlead : (0xF0 ≤ b && b ≤ 0xF4) = true := by
    simp only [Bool.and_eq_true, decide_eq_true_eq, UInt8.le_iff_toNat_le]
    show 240 ≤ b.toNat ∧ b.toNat ≤ 244
    omega
  have hbits : b.toNat - 0xF0 = m := by omega
  unfold front
  rw [if_neg (not_lt_of_toNat (by omega)), if_neg htwo, if_neg hthree, if_pos hlead]
  dsimp only
  rw [if_pos hsecond, if_pos (isTail_of_toNat h₂ hm₂), if_pos (isTail_of_toNat h₃ hm₃), hbits,
    tailBits_of_toNat h₁, tailBits_of_toNat h₂, tailBits_of_toNat h₃]

end Front

/-! ## Encoded text -/

theorem pieces_cons (b : UInt8) (rest : List UInt8) :
    pieces (b :: rest) = (front b rest).1 :: pieces (front b rest).2 := by
  rw [pieces]

/-- The encoding of a character is read as that character, whatever comes after it. -/
theorem pieces_utf8EncodeChar (c : Char) (rest : List UInt8) :
    pieces (String.utf8EncodeChar c ++ rest) = some c :: pieces rest := by
  have hvalid := c.valid
  have hchar : Char.ofNat c.val.toNat = c := Char.ofNat_toNat c
  have hbyte : ∀ lead m, lead + m < 256 → (UInt8.ofNat (m + lead)).toNat = lead + m := by
    intro lead m h
    rw [Nat.add_comm m lead]
    exact toNat_ofNat_of_lt h
  rw [UInt32.isValidChar, Nat.isValidChar] at hvalid
  rw [String.utf8EncodeChar]
  generalize c.val.toNat = v at hvalid hchar
  split
  · have hb := toNat_ofNat_of_lt (n := v) (by omega)
    have hfront := front_one (b := UInt8.ofNat v) rest (by omega)
    rw [hb, hchar] at hfront
    show pieces (_ :: rest) = _
    rw [pieces_cons, hfront]
  · split
    · have hb := hbyte 192 (v / 64 % 32) (by omega)
      have h₁ := hbyte 128 (v % 64) (by omega)
      have hsum : v / 64 % 32 * 64 + v % 64 = v := by omega
      have hfront := front_two rest hb (by omega) h₁ (by omega)
      rw [hsum, hchar] at hfront
      show pieces (_ :: _ :: rest) = _
      rw [pieces_cons, hfront]
    · split
      · have hb := hbyte 224 (v / 4096 % 16) (by omega)
        have h₁ := hbyte 128 (v / 64 % 64) (by omega)
        have h₂ := hbyte 128 (v % 64) (by omega)
        have hsum : v / 4096 % 16 * 4096 + v / 64 % 64 * 64 + v % 64 = v := by omega
        have hsecond : isSecond (UInt8.ofNat (v / 4096 % 16 + 224)) _ = true := isSecond_of_toNat h₁
          (by omega) (by omega) (by omega) (by omega) (by omega)
        have hfront := front_three rest hb (by omega) h₁ hsecond h₂ (by omega)
        rw [hsum, hchar] at hfront
        show pieces (_ :: _ :: _ :: rest) = _
        rw [pieces_cons, hfront]
      · have hb := hbyte 240 (v / 262144 % 8) (by omega)
        have h₁ := hbyte 128 (v / 4096 % 64) (by omega)
        have h₂ := hbyte 128 (v / 64 % 64) (by omega)
        have h₃ := hbyte 128 (v % 64) (by omega)
        have hsum : v / 262144 % 8 * 262144 + v / 4096 % 64 * 4096 + v / 64 % 64 * 64 + v % 64
            = v := by omega
        have hsecond : isSecond (UInt8.ofNat (v / 262144 % 8 + 240)) _ = true := isSecond_of_toNat h₁
          (by omega) (by omega) (by omega) (by omega) (by omega)
        have hfront := front_four rest hb (by omega) h₁ hsecond h₂ (by omega) h₃ (by omega)
        rw [hsum, hchar] at hfront
        show pieces (_ :: _ :: _ :: _ :: rest) = _
        rw [pieces_cons, hfront]

theorem pieces_flatMap_utf8EncodeChar (cs : List Char) :
    pieces (cs.flatMap String.utf8EncodeChar) = cs.map some := by
  induction cs with
  | nil => rw [List.flatMap_nil, pieces, List.map_nil]
  | cons c rest ih => rw [List.flatMap_cons, pieces_utf8EncodeChar, ih, List.map_cons]

theorem mapM_id_map_some {α : Type} (l : List α) : (l.map some).mapM id = some l := by
  induction l with
  | nil => rfl
  | cons a rest ih =>
    rw [List.map_cons, List.mapM_cons, ih]
    rfl

theorem encode_append (s t : String) : encode (s ++ t) = encode s ++ encode t := by
  rw [encode, String.toList_append, List.flatMap_append, encode, encode]

theorem decode?_encode (s : String) : decode? (encode s) = some s := by
  rw [decode?, encode, pieces_flatMap_utf8EncodeChar, mapM_id_map_some, Option.map_some,
    String.ofList_toList]

theorem decodeLossy_encode (s : String) : decodeLossy (encode s) = s := by
  have hsame : ((s.toList.map some).map (·.getD (Char.ofNat 0xFFFD))) = s.toList := by
    rw [List.map_map]
    exact List.map_id _
  rw [decodeLossy, encode, pieces_flatMap_utf8EncodeChar, hsame, String.ofList_toList]

/-! ## ASCII in encoded text -/

theorem utf8EncodeChar_of_ascii {c : Char} (h : c.toNat < 128) :
    String.utf8EncodeChar c = [UInt8.ofNat c.toNat] := by
  have hle : c.val.toNat ≤ 127 := Nat.lt_succ_iff.mp h
  rw [String.utf8EncodeChar]
  exact if_pos hle

/-- Outside ASCII the encoding of a character has no ASCII byte. -/
theorem le_of_mem_utf8EncodeChar {c : Char} (h : 128 ≤ c.toNat) {b : UInt8}
    (hb : b ∈ String.utf8EncodeChar c) : 128 ≤ b.toNat := by
  have hv : 128 ≤ c.val.toNat := h
  rw [String.utf8EncodeChar] at hb
  generalize c.val.toNat = v at hv hb
  have hlarge : ∀ n, 128 ≤ n → n < 256 → 128 ≤ (UInt8.ofNat n).toNat := by
    intro n hn hlt
    rw [toNat_ofNat_of_lt hlt]
    exact hn
  rw [if_neg (by omega)] at hb
  split at hb
  · simp only [List.mem_cons, List.not_mem_nil, or_false] at hb
    rcases hb with rfl | rfl <;> exact hlarge _ (by omega) (by omega)
  · split at hb
    · simp only [List.mem_cons, List.not_mem_nil, or_false] at hb
      rcases hb with rfl | rfl | rfl <;> exact hlarge _ (by omega) (by omega)
    · simp only [List.mem_cons, List.not_mem_nil, or_false] at hb
      rcases hb with rfl | rfl | rfl | rfl <;> exact hlarge _ (by omega) (by omega)

end Utf8
end HomeSync
