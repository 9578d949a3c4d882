import HomeSync.Proofs.Json.Literals
import HomeSync.Proofs.Json.Phases

/-
Documents are read back as they were written.

Every text that the grammar gives a document is read as that document.  The reader takes
one byte at a time, so what it does with a value is stated for the value alone, on any
stack and with anything behind it.  A number is over only at the byte after it, which is
why a reader that has a value may still be within the number.
-/
namespace HomeSync
namespace Json
namespace Reader

/-! ## Literals -/

/-- A literal is taken in byte by byte for as long as it has a phase. -/
theorem foldlM_literal {Phase : Type} (stack : List Frame) (mode : Phase → List UInt8 → Mode)
    {next : Phase → UInt8 → Option Phase}
    (hstep : ∀ phase b phase' seen, next phase b = some phase' →
      step ⟨stack, mode phase seen⟩ b = some ⟨stack, mode phase' (b :: seen)⟩)
    {literal : List UInt8} {phase phase' : Phase} (seen : List UInt8)
    (h : literal.foldlM next phase = some phase') :
    literal.foldlM step ⟨stack, mode phase seen⟩ =
      some ⟨stack, mode phase' (literal.reverse ++ seen)⟩ := by
  induction literal generalizing phase seen with
  | nil =>
    obtain rfl : phase = phase' := Option.some.inj h
    rfl
  | cons b rest ih =>
    rw [List.foldlM_cons] at h ⊢
    obtain ⟨next', hnext, hrest⟩ := Option.bind_eq_some_iff.mp h
    rw [hstep phase b next' seen hnext]
    simp only [Option.bind_eq_bind, Option.bind_some, ih (b :: seen) hrest, List.reverse_cons,
      List.append_assoc, List.singleton_append]

/-- A string is taken in alike whether it is a text or a name. -/
theorem foldlM_string {mode : TextPhase → List UInt8 → Mode}
    (hmode : mode = .text ∨ mode = .name) {literal : List UInt8} {phase : TextPhase}
    (stack : List Frame) (h : textPhase? .plain literal = some phase) :
    literal.foldlM step ⟨stack, mode .plain []⟩ = some ⟨stack, mode phase literal.reverse⟩ := by
  have hread := foldlM_literal stack mode ?_ [] h
  · rwa [List.append_nil] at hread
  · intro phase b phase' seen hnext
    rcases hmode with rfl | rfl <;> simp only [step, Option.join_eq_some_iff.mp hnext]

theorem foldlM_number {literal seen : List UInt8} {phase phase' : NumberPhase}
    (stack : List Frame) (h : literal.foldlM numberStep? phase = some phase') :
    literal.foldlM step ⟨stack, .number phase seen⟩ =
      some ⟨stack, .number phase' (literal.reverse ++ seen)⟩ := by
  apply foldlM_literal stack .number ?_ seen h
  intro phase b phase' seen hnext
  simp only [step, hnext]

/-! ## The literals of texts and integers -/

/-- Outside an escape a byte that neither begins one nor ends the text is just taken. -/
theorem textPhase?_plain {l : List UInt8}
    (h : ∀ b ∈ l, 0x20 ≤ b.toNat ∧ b.toNat ≠ 0x22 ∧ b.toNat ≠ 0x5C) :
    textPhase? .plain l = some .plain := by
  induction l with
  | nil => rfl
  | cons b rest ih =>
    obtain ⟨hlow, hquote, hslash⟩ := h b List.mem_cons_self
    have hstep : textStep? .plain b = some (some .plain) := by
      apply textStep?_plain
      · rwa [UInt8.le_iff_toNat_le]
      · rintro rfl
        exact hquote rfl
      · rintro rfl
        exact hslash rfl
    rw [textPhase?_cons, hstep]
    exact ih fun b' hb' => h b' (List.mem_cons_of_mem b hb')

theorem textPhase?_escapeChar (c : Char) :
    textPhase? .plain ((escapeChar c).flatMap String.utf8EncodeChar) = some .plain := by
  have hcodes : ∀ n < 32, textPhase? .plain
      (('\\' :: 'u' :: Hex.padded 4 n).flatMap String.utf8EncodeChar) = some .plain := by decide
  rw [escapeChar]
  repeat' split
  · rfl
  · rfl
  · rfl
  · rfl
  · rfl
  · rfl
  · rfl
  · rename_i h
    exact hcodes c.toNat h
  · rename_i hquote hslash _ _ _ _ _ hlow
    rw [List.flatMap_cons, List.flatMap_nil, List.append_nil]
    apply textPhase?_plain
    intro b hb
    have hne : ∀ n, Char.ofNat n ≠ c → c.toNat ≠ n := by
      rintro n hn rfl
      exact hn (Char.ofNat_toNat c)
    have hquote' := hne 0x22 (Ne.symm hquote)
    have hslash' := hne 0x5C (Ne.symm hslash)
    by_cases hascii : c.toNat < 128
    · rw [Utf8.utf8EncodeChar_of_ascii hascii, List.mem_singleton] at hb
      rw [hb, Utf8.toNat_ofNat_of_lt (by omega)]
      omega
    · have hlarge := Utf8.le_of_mem_utf8EncodeChar (by omega) hb
      omega

theorem textLiteral_literal (s : String) : TextLiteral (literal s) := by
  rw [← textPhase?_eq_plain_iff, literal, Utf8.encode, String.toList_ofList, List.flatMap_assoc]
  induction s.toList with
  | nil => rfl
  | cons c rest ih =>
    rw [List.flatMap_cons, textPhase?_append, textPhase?_escapeChar, Option.bind_some, ih]

theorem foldlM_numberStep?_encode_toString (m : Nat) :
    (Utf8.encode (toString m)).foldlM numberStep? .sign =
      some (if m = 0 then NumberPhase.zero else .whole) := by
  have hfirst : ∀ m < 10, numberStep? .sign (UInt8.ofNat (48 + m)) =
      some (if m = 0 then NumberPhase.zero else .whole) := by decide
  have hmore : ∀ k < 10, numberStep? .whole (UInt8.ofNat (48 + k)) = some .whole := by decide
  induction m using Nat.strongRecOn with
  | ind m ih =>
    by_cases hm : m < 10
    · rw [encode_toString_of_lt hm, List.foldlM_cons, hfirst m hm]
      rfl
    · rw [encode_toString_of_le (by omega), List.foldlM_append, ih (m / 10) (by omega),
        if_neg (by omega), if_neg (by omega), Option.bind_eq_bind, Option.bind_some,
        List.foldlM_cons, hmore _ (Nat.mod_lt m (by omega))]
      rfl

theorem mayEnd_whole_or_zero (m : Nat) :
    mayEnd (if m = 0 then NumberPhase.zero else .whole) = true := by
  split <;> rfl

theorem numberLiteral_encode_toString (n : Int) :
    NumberLiteral (Utf8.encode (toString n)) := by
  cases n with
  | negSucc m =>
    rw [encode_toString_negSucc]
    exact .negative (unsigned_of_foldlM (foldlM_numberStep?_encode_toString (m + 1))
      (mayEnd_whole_or_zero (m + 1)))
  | ofNat m =>
    have htext : toString (Int.ofNat m) = toString m := rfl
    rw [htext]
    exact .unsigned (unsigned_of_foldlM (foldlM_numberStep?_encode_toString m)
      (mayEnd_whole_or_zero m))

/-! ## Readers that have a value -/

/-- The reader is at the end of a value, which is not yet part of what the stack holds. -/
inductive Holds (stack : List Frame) : Json → Reader → Prop
  | done (v : Json) : Holds stack v ⟨stack, .done v⟩
  | number {phase : NumberPhase} (seen : List UInt8) :
      mayEnd phase = true → Holds stack (.number seen.reverse) ⟨stack, .number phase seen⟩

/-- The bytes that can come after a value, and belong to no number. -/
def IsEnd (b : UInt8) : Prop :=
  b = ','.toUInt8 ∨ b = ']'.toUInt8 ∨ b = '}'.toUInt8 ∨ isBlank b = true

theorem numberStep?_of_isEnd {b : UInt8} (h : IsEnd b) (phase : NumberPhase) :
    numberStep? phase b = none := by
  simp only [IsEnd, isBlank_iff, List.mem_cons, List.not_mem_nil, or_false] at h
  rcases h with rfl | rfl | rfl | rfl | rfl | rfl | rfl <;> cases phase <;> decide

theorem step_of_holds {stack : List Frame} {v : Json} {r : Reader} {b : UInt8}
    (hr : Holds stack v r) (hb : IsEnd b) : step r b = afterValue? stack v b := by
  cases hr with
  | done => rfl
  | number seen hend => simp only [step, numberStep?_of_isEnd hb, hend, if_true]

theorem finish?_of_holds {v : Json} {r : Reader} (hr : Holds [] v r) : finish? r = some v := by
  cases hr with
  | done => rfl
  | number seen hend => simp only [finish?, hend, if_true]

/-! ## The first byte of a value -/

theorem begin?_of_isBlank {b : UInt8} (h : isBlank b = true) (stack : List Frame) :
    begin? stack b = none := by
  simp only [isBlank, Bool.or_eq_true, beq_iff_eq] at h
  rcases h with ((rfl | rfl) | rfl) | rfl <;> rfl

theorem isBlank_of_begin? {stack : List Frame} {b : UInt8} {r : Reader}
    (h : begin? stack b = some r) : isBlank b = false := by
  cases hb : isBlank b with
  | false => rfl
  | true => simp [begin?_of_isBlank hb] at h

theorem begin?_of_numberStep? {b : UInt8} {phase : NumberPhase} (stack : List Frame)
    (h : numberStep? .sign b = some phase) : begin? stack b = some ⟨stack, .number phase [b]⟩ := by
  simp only [numberStep?] at h
  split at h
  · rename_i hb
    obtain rfl : b = '0'.toUInt8 := by simpa using hb
    obtain rfl : NumberPhase.zero = phase := Option.some.inj h
    rfl
  · rename_i hzero
    split at h
    · rename_i hdigit
      obtain rfl : NumberPhase.whole = phase := Option.some.inj h
      have hquote : (b == '"'.toUInt8) = false := by
        rw [beq_eq_false_iff_ne]
        rintro rfl
        exact absurd hdigit (by decide)
      have hminus : (b == '-'.toUInt8) = false := by
        rw [beq_eq_false_iff_ne]
        rintro rfl
        exact absurd hdigit (by decide)
      simp only [begin?, hquote, hminus, hzero, hdigit, Bool.false_eq_true, if_false, if_true]
    · simp at h

/-! ## Blanks -/

theorem foldlM_blanks {r : Reader} (hr : ∀ b, isBlank b = true → step r b = some r)
    {l : List UInt8} (h : Blanks l) : l.foldlM step r = some r := by
  induction l with
  | nil => rfl
  | cons b rest ih =>
    obtain ⟨hb, hrest⟩ := List.forall_mem_cons.mp h
    rw [List.foldlM_cons, hr b (isBlank_iff.mpr hb), Option.bind_eq_bind, Option.bind_some,
      ih hrest]

theorem foldlM_blanks_of_holds {stack : List Frame} {v : Json} {r : Reader} (hr : Holds stack v r)
    {l : List UInt8} (h : Blanks l) : ∃ r', l.foldlM step r = some r' ∧ Holds stack v r' := by
  have hafter : ∀ b, isBlank b = true → afterValue? stack v b = some ⟨stack, .done v⟩ := by
    intro b hb
    simp only [afterValue?, hb, if_true]
  cases l with
  | nil => exact ⟨r, rfl, hr⟩
  | cons b rest =>
    obtain ⟨hb, hrest⟩ := List.forall_mem_cons.mp h
    have hblank := isBlank_iff.mpr hb
    refine ⟨⟨stack, .done v⟩, ?_, .done v⟩
    rw [List.foldlM_cons, step_of_holds hr (.inr (.inr (.inr hblank))), hafter b hblank,
      Option.bind_eq_bind, Option.bind_some]
    exact foldlM_blanks (r := ⟨stack, .done v⟩) hafter hrest

/-- The reader waits for the first byte of a value, over any blanks. -/
structure Opens (stack : List Frame) (mode : Mode) : Prop where
  blank : ∀ b, isBlank b = true → step ⟨stack, mode⟩ b = some ⟨stack, mode⟩
  value : ∀ b r, begin? stack b = some r → step ⟨stack, mode⟩ b = some r

theorem opens_value (stack : List Frame) : Opens stack .value where
  blank b hb := by simp only [step, hb, if_true]
  value b r h := by simp only [step, isBlank_of_begin? h, Bool.false_eq_true, if_false, h]

theorem opens_firstItem (stack : List Frame) : Opens stack .firstItem where
  blank b hb := by simp only [step, hb, if_true]
  value b r h := by
    have hclose : (b == ']'.toUInt8) = false := by
      rw [beq_eq_false_iff_ne]
      rintro rfl
      have hnone : begin? stack ']'.toUInt8 = none := rfl
      simp [hnone] at h
    simp only [step, isBlank_of_begin? h, hclose, Bool.false_eq_true, if_false, h]

/-! ## Whole values -/

/-- The bytes begin a value and end with the reader having it. -/
def Reads (stack : List Frame) (v : Json) (bytes : List UInt8) : Prop :=
  ∃ b rest r₀ r, bytes = b :: rest ∧ begin? stack b = some r₀ ∧
    rest.foldlM step r₀ = some r ∧ Holds stack v r

theorem foldlM_of_reads {stack : List Frame} {v : Json} {bytes : List UInt8} {mode : Mode}
    (h : Reads stack v bytes) (hmode : Opens stack mode) :
    ∃ r, bytes.foldlM step ⟨stack, mode⟩ = some r ∧ Holds stack v r := by
  obtain ⟨b, rest, r₀, r, rfl, hbegin, hrest, hr⟩ := h
  refine ⟨r, ?_, hr⟩
  rw [List.foldlM_cons, hmode.value b r₀ hbegin]
  exact hrest

theorem reads_number {literal : List UInt8} {phase : NumberPhase} (stack : List Frame)
    (h : numberPhase? literal = some phase) (hend : mayEnd phase = true) :
    Reads stack (.number literal) literal := by
  have hholds : ∀ (b : UInt8) rest,
      Holds stack (.number (b :: rest)) ⟨stack, .number phase (rest.reverse ++ [b])⟩ := by
    intro b rest
    have hnumber : Holds stack _ _ := .number (rest.reverse ++ [b]) hend
    rwa [List.reverse_append, List.reverse_reverse] at hnumber
  unfold numberPhase? at h
  split at h
  · rename_i digits
    exact ⟨_, digits, _, _, rfl, rfl, foldlM_number stack h, hholds _ digits⟩
  · cases literal with
    | nil =>
      obtain rfl : NumberPhase.sign = phase := Option.some.inj h
      exact absurd hend (by decide)
    | cons b rest =>
      rw [List.foldlM_cons] at h
      obtain ⟨first, hfirst, hrest⟩ := Option.bind_eq_some_iff.mp h
      exact ⟨b, rest, _, _, rfl, begin?_of_numberStep? stack hfirst, foldlM_number stack hrest,
        hholds b rest⟩

theorem reads_text {literal : List UInt8} (stack : List Frame) (h : TextLiteral literal) :
    Reads stack (.text literal) (quoted literal) := by
  refine ⟨'"'.toUInt8, literal ++ ['"'.toUInt8], _, _, rfl, rfl, ?_, .done _⟩
  rw [List.foldlM_append, foldlM_string (.inl rfl) stack (textPhase?_of_textLiteral h)]
  show step ⟨stack, .text .plain literal.reverse⟩ '"'.toUInt8 >>= pure = _
  have hclose : step ⟨stack, .text .plain literal.reverse⟩ '"'.toUInt8 =
      some ⟨stack, .done (.text literal.reverse.reverse)⟩ := rfl
  rw [hclose, List.reverse_reverse]
  rfl

/-- A closing byte takes the value that the reader has into an array or object, which is
then the value it has. -/
theorem reads_of_close {stack stack' : List Frame} {v w : Json} {first last : UInt8}
    {r₀ r : Reader} {body : List UInt8} (hbegin : begin? stack first = some r₀)
    (hbody : body.foldlM step r₀ = some r) (hr : Holds stack' w r) (hend : IsEnd last)
    (hclose : afterValue? stack' w last = some ⟨stack, .done v⟩) :
    Reads stack v (first :: body ++ [last]) := by
  refine ⟨first, body ++ [last], r₀, _, rfl, hbegin, ?_, .done v⟩
  rw [List.foldlM_append, hbody, Option.bind_eq_bind, Option.bind_some, List.foldlM_cons,
    step_of_holds hr hend, hclose]
  rfl

/-- A name with its colon leads from an object to the value of the member. -/
theorem foldlM_label {name label : List UInt8} (h : Label name label)
    (before : List (List UInt8 × Json)) (stack : List Frame) {mode : Mode}
    (hmode : mode = .firstName ∨ mode = .nextName) :
    label.foldlM step ⟨.object before :: stack, mode⟩ =
      some ⟨.member before name :: stack, .value⟩ := by
  cases h with
  | @mk blanks gap hblanks hname hgap =>
    have hwait : blanks.foldlM step ⟨.object before :: stack, mode⟩ =
        some ⟨.object before :: stack, mode⟩ := by
      apply foldlM_blanks _ hblanks
      intro b hb
      rcases hmode with rfl | rfl <;> simp only [step, hb, if_true]
    have hopen : step ⟨.object before :: stack, mode⟩ '"'.toUInt8 =
        some ⟨.object before :: stack, .name .plain []⟩ := by
      rcases hmode with rfl | rfl <;> rfl
    have hliteral : name.foldlM step ⟨.object before :: stack, .name .plain []⟩ =
        some ⟨.object before :: stack, .name .plain name.reverse⟩ :=
      foldlM_string (.inr rfl) _ (textPhase?_of_textLiteral hname)
    have hclose : step ⟨.object before :: stack, .name .plain name.reverse⟩ '"'.toUInt8 =
        some ⟨.member before name.reverse.reverse :: stack, .colon⟩ := rfl
    have hgap' : gap.foldlM step ⟨.member before name :: stack, .colon⟩ =
        some ⟨.member before name :: stack, .colon⟩ := by
      apply foldlM_blanks _ hgap
      intro b hb
      simp only [step, hb, if_true]
    rw [List.reverse_reverse] at hclose
    simp only [quoted, List.append_assoc, List.cons_append, List.nil_append, List.foldlM_append,
      List.foldlM_cons, hwait, hopen, hliteral, hclose, hgap', Option.bind_eq_bind,
      Option.bind_some]
    rfl

/- By recursion on the rules of the grammar.  The values within an array or object are read on
its frame, so what is said of a text is said for every stack. -/
mutual

theorem reads_written {v : Json} {bytes : List UInt8} (h : Written v bytes)
    (stack : List Frame) : Reads stack v bytes := by
  match h with
  | .null => exact ⟨_, _, _, _, rfl, rfl, rfl, .done _⟩
  | .true => exact ⟨_, _, _, _, rfl, rfl, rfl, .done _⟩
  | .false => exact ⟨_, _, _, _, rfl, rfl, rfl, .done _⟩
  | .number hnumber =>
    obtain ⟨phase, hphase, hend⟩ := numberPhase?_of_numberLiteral hnumber
    exact reads_number stack hphase hend
  | .text htext => exact reads_text stack htext
  | @Written.noItems gap hgap =>
    have hblanks := foldlM_blanks (opens_firstItem (.array [] :: stack)).blank hgap
    refine ⟨'['.toUInt8, gap ++ [']'.toUInt8], _, _, rfl, rfl, ?_, .done _⟩
    rw [List.foldlM_append, hblanks]
    rfl
  | .array hitems =>
    obtain ⟨r, last, before, hread, hr, heq⟩ := foldlM_items hitems stack
    refine reads_of_close rfl hread hr (.inr (.inl rfl)) ?_
    rw [heq, ← List.reverse_cons]
    rfl
  | @Written.noMembers gap hgap =>
    have hblanks : gap.foldlM step ⟨.object [] :: stack, .firstName⟩ = _ :=
      foldlM_blanks (fun b hb => by simp only [step, hb, if_true]) hgap
    refine ⟨'{'.toUInt8, gap ++ ['}'.toUInt8], _, _, rfl, rfl, ?_, .done _⟩
    rw [List.foldlM_append, hblanks]
    rfl
  | .object hmembers =>
    obtain ⟨r, name, last, before, hread, hr, heq⟩ := foldlM_members hmembers stack
    refine reads_of_close rfl hread hr (.inr (.inr (.inl rfl))) ?_
    rw [heq, ← List.reverse_cons]
    rfl

theorem foldlM_document {v : Json} {bytes : List UInt8} (h : Document v bytes)
    {stack : List Frame} {mode : Mode} (hmode : Opens stack mode) :
    ∃ r, bytes.foldlM step ⟨stack, mode⟩ = some r ∧ Holds stack v r := by
  match h with
  | .mk hbefore hwritten hafter =>
    obtain ⟨r, hread, hr⟩ := foldlM_of_reads (reads_written hwritten stack) hmode
    obtain ⟨r', hread', hr'⟩ := foldlM_blanks_of_holds hr hafter
    refine ⟨r', ?_, hr'⟩
    rw [List.foldlM_append, List.foldlM_append, foldlM_blanks hmode.blank hbefore,
      Option.bind_eq_bind, Option.bind_some, hread, Option.bind_some, hread']

/-- All items but the last one are on the stack when the last one has been read. -/
theorem foldlM_items {items : List Json} {body : List UInt8} (h : Items items body)
    (stack : List Frame) :
    ∃ r last before, body.foldlM step ⟨.array [] :: stack, .firstItem⟩ = some r ∧
      Holds (.array before :: stack) last r ∧ items = before.reverse ++ [last] := by
  match h with
  | @Items.first v _ hv =>
    obtain ⟨r, hread, hr⟩ := foldlM_document hv (opens_firstItem (.array [] :: stack))
    exact ⟨r, v, [], hread, hr, rfl⟩
  | @Items.next _ v _ _ hitems hv =>
    obtain ⟨r, last, before, hread, hr, heq⟩ := foldlM_items hitems stack
    obtain ⟨r', hread', hr'⟩ :=
      foldlM_document hv (opens_value (.array (last :: before) :: stack))
    have hcomma : step r ','.toUInt8 = some ⟨.array (last :: before) :: stack, .value⟩ :=
      step_of_holds hr (.inl rfl)
    refine ⟨r', v, last :: before, ?_, hr', by rw [heq, List.reverse_cons]⟩
    rw [List.foldlM_append, hread, Option.bind_eq_bind, Option.bind_some, List.foldlM_cons,
      hcomma, Option.bind_eq_bind, Option.bind_some, hread']

theorem foldlM_members {members : List (List UInt8 × Json)} {body : List UInt8}
    (h : Members members body) (stack : List Frame) :
    ∃ r name last before, body.foldlM step ⟨.object [] :: stack, .firstName⟩ = some r ∧
      Holds (.member before name :: stack) last r ∧
      members = before.reverse ++ [(name, last)] := by
  match h with
  | @Members.first name v _ _ hname hv =>
    obtain ⟨r, hread, hr⟩ := foldlM_document hv (opens_value (.member [] name :: stack))
    refine ⟨r, name, v, [], ?_, hr, rfl⟩
    rw [List.foldlM_append, foldlM_label hname [] stack (.inl rfl), Option.bind_eq_bind,
      Option.bind_some, hread]
  | @Members.next _ name v _ _ _ hmembers hname hv =>
    obtain ⟨r, name', last, before, hread, hr, heq⟩ := foldlM_members hmembers stack
    obtain ⟨r', hread', hr'⟩ :=
      foldlM_document hv (opens_value (.member ((name', last) :: before) name :: stack))
    have hcomma : step r ','.toUInt8 =
        some ⟨.object ((name', last) :: before) :: stack, .nextName⟩ :=
      step_of_holds hr (.inl rfl)
    refine ⟨r', name, v, (name', last) :: before, ?_, hr', by rw [heq, List.reverse_cons]⟩
    rw [List.foldlM_append, hread, Option.bind_eq_bind, Option.bind_some, List.foldlM_cons,
      hcomma, Option.bind_eq_bind, Option.bind_some, List.foldlM_append,
      foldlM_label hname _ stack (.inr rfl), Option.bind_eq_bind, Option.bind_some, hread']

end

end Reader

theorem parse?_of_document {v : Json} {bytes : List UInt8} (h : Document v bytes) :
    parse? bytes = some v := by
  obtain ⟨r, hread, hr⟩ := Reader.foldlM_document h (Reader.opens_value [])
  rw [parse?, Reader.start, hread, Option.bind_some, Reader.finish?_of_holds hr]

/-! ## Documents without blanks -/

/-- Every literal of the document is one that the grammar has. -/
inductive Spelled : Json → Prop
  | null : Spelled .null
  | bool (b : Bool) : Spelled (.bool b)
  | number {literal : List UInt8} : NumberLiteral literal → Spelled (.number literal)
  | text {literal : List UInt8} : TextLiteral literal → Spelled (.text literal)
  | array {items : List Json} : (∀ v ∈ items, Spelled v) → Spelled (.array items)
  | object {members : List (List UInt8 × Json)} :
      (∀ m ∈ members, TextLiteral m.1) → (∀ m ∈ members, Spelled m.2) →
      Spelled (.object members)

theorem items_renderItems {items : List Json} (hne : items ≠ [])
    (h : ∀ v ∈ items, Written v v.render) : Items items (renderItems items) := by
  induction items with
  | nil => exact absurd rfl hne
  | cons v rest ih =>
    obtain ⟨hv, hrest⟩ := List.forall_mem_cons.mp h
    cases rest with
    | nil => exact .first hv.document
    | cons w rest => exact (ih (List.cons_ne_nil w rest) hrest).cons hv.document

theorem members_renderMembers {members : List (List UInt8 × Json)} (hne : members ≠ [])
    (hnames : ∀ m ∈ members, TextLiteral m.1) (h : ∀ m ∈ members, Written m.2 m.2.render) :
    Members members (renderMembers members) := by
  induction members with
  | nil => exact absurd rfl hne
  | cons m rest ih =>
    obtain ⟨name, v⟩ := m
    obtain ⟨hname, hnames⟩ := List.forall_mem_cons.mp hnames
    obtain ⟨hv, hrest⟩ := List.forall_mem_cons.mp h
    cases rest with
    | nil =>
      have hfirst := Members.first hname.label hv.document
      rwa [List.append_assoc] at hfirst
    | cons m rest =>
      have hcons := (ih (List.cons_ne_nil m rest) hnames hrest).cons hname.label hv.document
      rwa [List.append_assoc (quoted name)] at hcons

theorem written_render {v : Json} (h : v.Spelled) : Written v v.render := by
  induction h with
  | null => exact .null
  | bool b => cases b with
    | true => exact .true
    | false => exact .false
  | number hliteral => exact .number hliteral
  | text hliteral => exact .text hliteral
  | @array items _ ih =>
    by_cases hne : items = []
    · subst hne
      exact .noItems blanks_nil
    · exact .array (items_renderItems hne ih)
  | @object members hnames _ ih =>
    by_cases hne : members = []
    · subst hne
      exact .noMembers blanks_nil
    · exact .object (members_renderMembers hne hnames ih)

/-- Writing a document and reading it gives the document back. -/
theorem parse?_render {v : Json} (h : v.Spelled) : parse? v.render = some v :=
  parse?_of_document (written_render h).document

theorem spelled_ofString (s : String) : (ofString s).Spelled :=
  .text (Reader.textLiteral_literal s)

theorem spelled_ofWord (n : Int64) : (ofWord n).Spelled :=
  .number (Reader.numberLiteral_encode_toString n.toInt)

end Json
end HomeSync
