import HomeSync.Json.Reader
import HomeSync.Proofs.Json.Grammar

/-
The literals that the reader takes are those of the grammar.

Within a literal the reader knows no more than a phase.  For a string the phase says what
is still to come, for a number what has been seen.
-/
namespace HomeSync
namespace Json
namespace Reader

def textPhase? (phase : TextPhase) (literal : List UInt8) : Option TextPhase :=
  literal.foldlM (fun phase b => (textStep? phase b).join) phase

def numberPhase? : (literal : List UInt8) → Option NumberPhase
  | 0x2D :: digits => digits.foldlM numberStep? .sign
  | digits => digits.foldlM numberStep? .sign

/-- What is known of a state and the bytes that have led to it, and lasts with each byte that
is taken, lasts with all of them. -/
theorem foldlM_extends {σ : Type} {next : σ → UInt8 → Option σ} {P : σ → List UInt8 → Prop}
    (hnext : ∀ {s s' : σ} {seen : List UInt8} {b : UInt8},
      P s seen → next s b = some s' → P s' (seen ++ [b]))
    {s s' : σ} {seen l : List UInt8} (hs : P s seen) (h : l.foldlM next s = some s') :
    P s' (seen ++ l) := by
  induction l generalizing s seen with
  | nil =>
    obtain rfl : s = s' := Option.some.inj h
    rwa [List.append_nil]
  | cons b rest ih =>
    rw [List.foldlM_cons] at h
    obtain ⟨s₁, hfirst, hrest⟩ := Option.bind_eq_some_iff.mp h
    rw [List.append_cons]
    exact ih (hnext hs hfirst) hrest

/-! ## Bytes -/

theorem isBlank_iff {b : UInt8} :
    isBlank b = true ↔ b ∈ ([0x20, 0x09, 0x0A, 0x0D] : List UInt8) := by
  simp [isBlank, or_assoc]

theorem isDigit_iff {b : UInt8} : isDigit b = true ↔ Digit b := by
  simp [isDigit, Digit]

theorem isHexDigit_iff {b : UInt8} : isHexDigit b = true ↔ HexDigit b := by
  simp [isHexDigit, HexDigit, isDigit_iff, or_assoc]

theorem isEscape_iff {b : UInt8} :
    isEscape b = true ↔ b ∈ "\"\\/bfnrt".toList.map Char.toUInt8 := by
  rw [isEscape, List.any_eq_true, List.mem_map]
  simp only [beq_iff_eq]

/-! ## Texts -/

theorem textPhase?_cons (phase : TextPhase) (b : UInt8) (rest : List UInt8) :
    textPhase? phase (b :: rest) = (textStep? phase b).join.bind (textPhase? · rest) :=
  List.foldlM_cons

theorem textPhase?_append (phase : TextPhase) (l₁ l₂ : List UInt8) :
    textPhase? phase (l₁ ++ l₂) = (textPhase? phase l₁).bind (textPhase? · l₂) :=
  List.foldlM_append

theorem textStep?_plain {b : UInt8} (hlow : 0x20 ≤ b) (hquote : b ≠ '"'.toUInt8)
    (hslash : b ≠ '\\'.toUInt8) : textStep? .plain b = some (some .plain) := by
  simp only [textStep?, beq_eq_false_iff_ne.mpr hquote, beq_eq_false_iff_ne.mpr hslash,
    UInt8.not_lt.mpr hlow, Bool.false_eq_true, if_false]

theorem textStep?_escape {b : UInt8} (h : isEscape b = true) :
    textStep? .escape b = some (some .plain) := by
  have hcode : (b == 'u'.toUInt8) = false := by
    rw [beq_eq_false_iff_ne]
    rintro rfl
    exact absurd h (by decide)
  simp only [textStep?, hcode, h, Bool.false_eq_true, if_false, if_true]

theorem textPhase?_code {n : Nat} {digits : List UInt8} (hlength : digits.length = n + 1)
    (hhex : ∀ b ∈ digits, HexDigit b) : textPhase? (.code (n + 1)) digits = some .plain := by
  induction n generalizing digits with
  | zero =>
    obtain ⟨b, rfl⟩ := List.length_eq_one_iff.mp hlength
    rw [textPhase?_cons, textStep?, if_pos (isHexDigit_iff.mpr (hhex b List.mem_cons_self))]
    rfl
  | succ n ih =>
    obtain ⟨b, rest, rfl⟩ := List.exists_cons_of_length_eq_add_one hlength
    have hrest := ih (Nat.succ.inj hlength) fun b' hb' => hhex b' (List.mem_cons_of_mem b hb')
    rw [textPhase?_cons, textStep?, if_pos (isHexDigit_iff.mpr (hhex b List.mem_cons_self)),
      if_neg (by omega)]
    exact hrest

theorem textPhase?_of_textLiteral {l : List UInt8} (h : TextLiteral l) :
    textPhase? .plain l = some .plain := by
  induction h with
  | nil => rfl
  | plain hlow hquote hslash _ ih =>
    rw [textPhase?_cons, textStep?_plain hlow hquote hslash]
    exact ih
  | escape hescape _ ih =>
    have hslash : textStep? .plain '\\'.toUInt8 = some (some .escape) := rfl
    rw [textPhase?_cons, hslash, Option.join_some, Option.bind_some, textPhase?_cons,
      textStep?_escape (isEscape_iff.mpr hescape)]
    exact ih
  | @code digits rest hlength hhex _ ih =>
    have hcode : textPhase? .plain ('\\'.toUInt8 :: 'u'.toUInt8 :: (digits ++ rest)) =
        textPhase? (.code 4) (digits ++ rest) := rfl
    rw [hcode, textPhase?_append, textPhase?_code hlength hhex]
    exact ih

/-- What is still to come of a string. -/
def Remains : TextPhase → List UInt8 → Prop
  | .plain, l => TextLiteral l
  | .escape, l => TextLiteral ('\\'.toUInt8 :: l)
  | .code n, l => ∃ digits rest, l = digits ++ rest ∧ digits.length = max n 1 ∧
      (∀ b ∈ digits, HexDigit b) ∧ TextLiteral rest

theorem remains_cons {phase phase' : TextPhase} {b : UInt8} {rest : List UInt8}
    (hstep : textStep? phase b = some (some phase')) (h : Remains phase' rest) :
    Remains phase (b :: rest) := by
  cases phase with
  | plain =>
    simp only [textStep?] at hstep
    split at hstep
    · simp at hstep
    · rename_i hquote
      split at hstep
      · rename_i hslash
        obtain rfl := Option.some.inj (Option.some.inj hstep)
        rwa [eq_of_beq hslash]
      · rename_i hslash
        split at hstep
        · simp at hstep
        · rename_i hlow
          obtain rfl := Option.some.inj (Option.some.inj hstep)
          exact .plain (UInt8.not_lt.mp hlow) (by simpa using hquote) (by simpa using hslash) h
  | escape =>
    simp only [textStep?] at hstep
    split at hstep
    · rename_i hcode
      obtain rfl := Option.some.inj (Option.some.inj hstep)
      obtain ⟨digits, rest, rfl, hlength, hhex, hrest⟩ := h
      rw [eq_of_beq hcode]
      exact .code hlength hhex hrest
    · split at hstep
      · rename_i hescape
        obtain rfl := Option.some.inj (Option.some.inj hstep)
        exact .escape (isEscape_iff.mp hescape) h
      · simp at hstep
  | code n =>
    simp only [textStep?] at hstep
    split at hstep
    · rename_i hhex
      obtain rfl := Option.some.inj (Option.some.inj hstep)
      split at h
      · rename_i hlast
        refine ⟨[b], rest, rfl, ?_, ?_, h⟩
        · rw [List.length_singleton]
          omega
        · intro b' hb'
          rw [List.mem_singleton.mp hb']
          exact isHexDigit_iff.mp hhex
      · obtain ⟨digits, rest, rfl, hlength, hdigits, hrest⟩ := h
        refine ⟨b :: digits, rest, rfl, ?_, ?_, hrest⟩
        · rw [List.length_cons]
          omega
        · exact List.forall_mem_cons.mpr ⟨isHexDigit_iff.mp hhex, hdigits⟩
    · simp at hstep

theorem remains_of_textPhase? {phase : TextPhase} {l : List UInt8}
    (h : textPhase? phase l = some .plain) : Remains phase l := by
  induction l generalizing phase with
  | nil =>
    obtain rfl : phase = .plain := Option.some.inj h
    exact .nil
  | cons b rest ih =>
    rw [textPhase?_cons] at h
    obtain ⟨phase', hstep, hrest⟩ := Option.bind_eq_some_iff.mp h
    exact remains_cons (Option.join_eq_some_iff.mp hstep) (ih hrest)

theorem textPhase?_eq_plain_iff {l : List UInt8} :
    textPhase? .plain l = some .plain ↔ TextLiteral l :=
  ⟨remains_of_textPhase?, textPhase?_of_textLiteral⟩

/-! ## Numbers -/

theorem numberStep?_sign {b : UInt8} (h : Digit b) (hzero : b ≠ '0'.toUInt8) :
    numberStep? .sign b = some .whole := by
  simp only [numberStep?, beq_eq_false_iff_ne.mpr hzero, isDigit_iff.mpr h, Bool.false_eq_true,
    if_false, if_true]

def withDigit : NumberPhase → NumberPhase
  | .point => .fraction
  | .mark | .markSign => .exponent
  | phase => phase

/-- The phases in which any digit may follow. -/
def TakesDigit (phase : NumberPhase) : Prop := phase ≠ .sign ∧ phase ≠ .zero

instance (phase : NumberPhase) : Decidable (TakesDigit phase) :=
  inferInstanceAs (Decidable (_ ∧ _))

theorem numberStep?_digit {phase : NumberPhase} (hphase : TakesDigit phase) {b : UInt8}
    (h : Digit b) : numberStep? phase b = some (withDigit phase) := by
  cases phase with
  | sign => exact absurd rfl hphase.1
  | zero => exact absurd rfl hphase.2
  | _ => simp only [numberStep?, isDigit_iff.mpr h, if_true, withDigit]

/-- One digit leads to the phase in which all further ones are taken. -/
theorem foldlM_digits {phase : NumberPhase} (hphase : TakesDigit phase) {l : List UInt8}
    (h : Digits l) : l.foldlM numberStep? phase = some (withDigit phase) := by
  obtain ⟨hne, hall⟩ := h
  induction l generalizing phase with
  | nil => exact absurd rfl hne
  | cons b rest ih =>
    obtain ⟨hb, hrest⟩ := List.forall_mem_cons.mp hall
    rw [List.foldlM_cons, numberStep?_digit hphase hb, Option.bind_eq_bind, Option.bind_some]
    by_cases hempty : rest = []
    · rw [hempty]
      rfl
    · have hnext : TakesDigit (withDigit phase) := by
        cases phase <;> simp_all [TakesDigit, withDigit]
      rw [ih hnext hempty hrest]
      cases phase <;> rfl

theorem foldlM_whole {l : List UInt8} (h : Whole l) :
    ∃ phase, l.foldlM numberStep? .sign = some phase ∧ (phase = .zero ∨ phase = .whole) := by
  cases h with
  | zero => exact ⟨.zero, rfl, .inl rfl⟩
  | @digits b rest hdigit hzero hrest =>
    refine ⟨.whole, ?_, .inr rfl⟩
    rw [List.foldlM_cons, numberStep?_sign hdigit hzero, Option.bind_eq_bind, Option.bind_some]
    by_cases hempty : rest = []
    · rw [hempty]
      rfl
    · exact foldlM_digits (by decide) ⟨hempty, hrest⟩

theorem foldlM_fraction {l : List UInt8} (h : Fraction l) {phase : NumberPhase}
    (hphase : phase = .zero ∨ phase = .whole) :
    ∃ phase', l.foldlM numberStep? phase = some phase' ∧
      (phase' = .zero ∨ phase' = .whole ∨ phase' = .fraction) := by
  cases h with
  | none => exact ⟨phase, rfl, hphase.imp_right .inl⟩
  | some hdigits =>
    have hpoint : numberStep? phase '.'.toUInt8 = some .point := by
      rcases hphase with rfl | rfl <;> rfl
    refine ⟨.fraction, ?_, .inr (.inr rfl)⟩
    rw [List.foldlM_cons, hpoint]
    exact foldlM_digits (by decide) hdigits

theorem foldlM_exponent {l : List UInt8} (h : Exponent l) {phase : NumberPhase}
    (hphase : phase = .zero ∨ phase = .whole ∨ phase = .fraction) :
    ∃ phase', l.foldlM numberStep? phase = some phase' ∧ mayEnd phase' = true := by
  cases h with
  | none => exact ⟨phase, rfl, by rcases hphase with rfl | rfl | rfl <;> rfl⟩
  | @some mark digits hmark hdigits =>
    refine ⟨.exponent, ?_, rfl⟩
    have hletter : ∀ b, b = 'e'.toUInt8 ∨ b = 'E'.toUInt8 →
        numberStep? phase b = some .mark := by
      rintro b (rfl | rfl) <;> rcases hphase with rfl | rfl | rfl <;> rfl
    rw [List.foldlM_append]
    cases hmark with
    | unsigned hb =>
      rw [List.foldlM_cons, hletter _ hb]
      exact foldlM_digits (by decide) hdigits
    | signed hb hsign =>
      rw [List.foldlM_cons, hletter _ hb]
      have hstep : ∀ sign, sign = '+'.toUInt8 ∨ sign = '-'.toUInt8 →
          numberStep? .mark sign = some .markSign := by
        rintro sign (rfl | rfl) <;> rfl
      simp only [Option.bind_eq_bind, Option.bind_some, List.foldlM_cons, hstep _ hsign,
        List.foldlM_nil, Option.pure_def]
      exact foldlM_digits (by decide) hdigits

theorem foldlM_unsigned {l : List UInt8} (h : Unsigned l) :
    ∃ phase, l.foldlM numberStep? .sign = some phase ∧ mayEnd phase = true := by
  cases h with
  | parts hwhole hfraction hexponent =>
    obtain ⟨p, hp, hp'⟩ := foldlM_whole hwhole
    obtain ⟨q, hq, hq'⟩ := foldlM_fraction hfraction hp'
    obtain ⟨r, hr, hend⟩ := foldlM_exponent hexponent hq'
    refine ⟨r, ?_, hend⟩
    rw [List.foldlM_append, List.foldlM_append, hp, Option.bind_eq_bind, Option.bind_some, hq,
      Option.bind_some, hr]

/-- Digits that can be read are no sign. -/
theorem numberPhase?_of_foldlM {l : List UInt8} {phase : NumberPhase}
    (h : l.foldlM numberStep? .sign = some phase) : numberPhase? l = some phase := by
  unfold numberPhase?
  split
  · have hnone : numberStep? .sign 0x2D = none := rfl
    rw [List.foldlM_cons, hnone] at h
    simp at h
  · exact h

theorem numberPhase?_of_numberLiteral {l : List UInt8} (h : NumberLiteral l) :
    ∃ phase, numberPhase? l = some phase ∧ mayEnd phase = true := by
  cases h with
  | unsigned h =>
    obtain ⟨phase, hphase, hend⟩ := foldlM_unsigned h
    exact ⟨phase, numberPhase?_of_foldlM hphase, hend⟩
  | negative h => exact foldlM_unsigned h

/-- What has been seen of a number after its sign. -/
inductive Seen : NumberPhase → List UInt8 → Prop
  | sign : Seen .sign []
  | zero : Seen .zero ['0'.toUInt8]
  | whole {b : UInt8} {rest : List UInt8} :
      Digit b → b ≠ '0'.toUInt8 → (∀ b ∈ rest, Digit b) → Seen .whole (b :: rest)
  | point {whole : List UInt8} : Whole whole → Seen .point (whole ++ ['.'.toUInt8])
  | fraction {whole digits : List UInt8} :
      Whole whole → Digits digits → Seen .fraction (whole ++ '.'.toUInt8 :: digits)
  | mark {whole fraction : List UInt8} {b : UInt8} :
      Whole whole → Fraction fraction → b = 'e'.toUInt8 ∨ b = 'E'.toUInt8 →
      Seen .mark (whole ++ fraction ++ [b])
  | markSign {whole fraction mark : List UInt8} :
      Whole whole → Fraction fraction → Mark mark → Seen .markSign (whole ++ fraction ++ mark)
  | exponent {whole fraction mark digits : List UInt8} :
      Whole whole → Fraction fraction → Mark mark → Digits digits →
      Seen .exponent (whole ++ fraction ++ (mark ++ digits))

/-- The ways in which a number goes on. -/
theorem numberStep?_cases {phase phase' : NumberPhase} {b : UInt8}
    (h : numberStep? phase b = some phase') :
    (phase = .sign ∧ b = '0'.toUInt8 ∧ phase' = .zero) ∨
    (phase = .sign ∧ Digit b ∧ b ≠ '0'.toUInt8 ∧ phase' = .whole) ∨
    (TakesDigit phase ∧ Digit b ∧ phase' = withDigit phase) ∨
    ((phase = .zero ∨ phase = .whole) ∧ b = '.'.toUInt8 ∧ phase' = .point) ∨
    ((phase = .zero ∨ phase = .whole ∨ phase = .fraction) ∧
      (b = 'e'.toUInt8 ∨ b = 'E'.toUInt8) ∧ phase' = .mark) ∨
    (phase = .mark ∧ (b = '+'.toUInt8 ∨ b = '-'.toUInt8) ∧ phase' = .markSign) := by
  cases phase <;> grind [numberStep?, withDigit, TakesDigit, isDigit_iff]

theorem digits_singleton {b : UInt8} (h : Digit b) : Digits [b] :=
  ⟨List.cons_ne_nil _ _, fun b' hb' => by rwa [List.mem_singleton.mp hb']⟩

theorem digits_concat {l : List UInt8} {b : UInt8} (h : ∀ b ∈ l, Digit b) (hb : Digit b) :
    Digits (l ++ [b]) :=
  ⟨by simp, List.forall_mem_append.mpr ⟨h, (digits_singleton hb).2⟩⟩

theorem whole_of_seen {phase : NumberPhase} {l : List UInt8} (h : Seen phase l)
    (hphase : phase = .zero ∨ phase = .whole) : Whole l := by
  cases h with
  | zero => exact .zero
  | whole hdigit hzero hrest => exact .digits hdigit hzero hrest
  | _ => simp at hphase

/-- Before an exponent there are the digits before the point and those after it. -/
theorem fraction_of_seen {phase : NumberPhase} {l : List UInt8} (h : Seen phase l)
    (hphase : phase = .zero ∨ phase = .whole ∨ phase = .fraction) :
    ∃ whole fraction, Whole whole ∧ Fraction fraction ∧ l = whole ++ fraction := by
  rcases hphase with hphase | hphase | rfl
  · exact ⟨l, [], whole_of_seen h (.inl hphase), .none, (List.append_nil l).symm⟩
  · exact ⟨l, [], whole_of_seen h (.inr hphase), .none, (List.append_nil l).symm⟩
  · cases h with
    | fraction hwhole hdigits => exact ⟨_, _, hwhole, .some hdigits, rfl⟩

theorem seen_digit {phase : NumberPhase} {l : List UInt8} {b : UInt8} (h : Seen phase l)
    (hphase : TakesDigit phase) (hb : Digit b) : Seen (withDigit phase) (l ++ [b]) := by
  cases h with
  | sign => exact absurd rfl hphase.1
  | zero => exact absurd rfl hphase.2
  | whole hdigit hzero hrest => exact .whole hdigit hzero (digits_concat hrest hb).2
  | point hwhole =>
    rw [List.append_assoc]
    exact .fraction hwhole (digits_singleton hb)
  | fraction hwhole hdigits =>
    rw [List.append_assoc]
    exact .fraction hwhole (digits_concat hdigits.2 hb)
  | mark hwhole hfraction hletter =>
    rw [List.append_assoc]
    exact .exponent hwhole hfraction (.unsigned hletter) (digits_singleton hb)
  | markSign hwhole hfraction hmark =>
    rw [List.append_assoc]
    exact .exponent hwhole hfraction hmark (digits_singleton hb)
  | exponent hwhole hfraction hmark hdigits =>
    rw [List.append_assoc (_ ++ _) (_ ++ _), List.append_assoc _ _ [b]]
    exact .exponent hwhole hfraction hmark (digits_concat hdigits.2 hb)

theorem seen_concat {phase phase' : NumberPhase} {l : List UInt8} {b : UInt8} (h : Seen phase l)
    (hstep : numberStep? phase b = some phase') : Seen phase' (l ++ [b]) := by
  rcases numberStep?_cases hstep with ⟨rfl, rfl, rfl⟩ | ⟨rfl, hdigit, hzero, rfl⟩ |
    ⟨hphase, hdigit, rfl⟩ | ⟨hphase, rfl, rfl⟩ | ⟨hphase, hletter, rfl⟩ | ⟨rfl, hsign, rfl⟩
  · cases h
    exact .zero
  · cases h
    exact .whole hdigit hzero (by simp)
  · exact seen_digit h hphase hdigit
  · exact .point (whole_of_seen h hphase)
  · obtain ⟨whole, fraction, hwhole, hfraction, rfl⟩ := fraction_of_seen h hphase
    exact .mark hwhole hfraction hletter
  · cases h with
    | mark hwhole hfraction hletter =>
      rw [List.append_assoc]
      exact .markSign hwhole hfraction (.signed hletter hsign)

theorem unsigned_of_foldlM {l : List UInt8} {phase : NumberPhase}
    (h : l.foldlM numberStep? .sign = some phase) (hend : mayEnd phase = true) : Unsigned l := by
  have hseen : Seen phase l := foldlM_extends (fun h hstep => seen_concat h hstep) .sign h
  by_cases hphase : phase = .exponent
  · subst hphase
    cases hseen with
    | exponent hwhole hfraction hmark hdigits =>
      exact .parts hwhole hfraction (.some hmark hdigits)
  · have hbefore : phase = .zero ∨ phase = .whole ∨ phase = .fraction := by
      cases phase <;> simp_all [mayEnd]
    obtain ⟨whole, fraction, hwhole, hfraction, rfl⟩ := fraction_of_seen hseen hbefore
    have hparts := Unsigned.parts hwhole hfraction .none
    rwa [List.append_nil] at hparts

theorem numberLiteral_iff {l : List UInt8} :
    NumberLiteral l ↔ ∃ phase, numberPhase? l = some phase ∧ mayEnd phase = true := by
  refine ⟨numberPhase?_of_numberLiteral, ?_⟩
  rintro ⟨phase, h, hend⟩
  unfold numberPhase? at h
  split at h
  · exact .negative (unsigned_of_foldlM h hend)
  · exact .unsigned (unsigned_of_foldlM h hend)

end Reader
end Json
end HomeSync
