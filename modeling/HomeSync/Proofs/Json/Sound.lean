import HomeSync.Proofs.Json.Reading

/-
The reader accepts the texts of the grammar and no others.

What the reader has on its stack says how far it has come in the arrays and objects
around it, and its mode how far in the value itself.  Every byte takes a text that fits
the reader to a longer one that fits it again, so the text of a finished document is one
that the grammar has.
-/
namespace HomeSync
namespace Json
namespace Reader

/-! ## What has been read -/

/-- A list that has begun, with a comma after what there is of it.  The entries are in
reverse order. -/
inductive Begun {α : Type} (list : List α → List UInt8 → Prop) : List α → List UInt8 → Prop
  | none : Begun list [] []
  | some {entries : List α} {body : List UInt8} :
      list entries.reverse body → Begun list entries (body ++ [','.toUInt8])

/-- The text up to where the next value or name may begin, without the blanks before it. -/
inductive Opened : List Frame → List UInt8 → Prop
  | top : Opened [] []
  | array {stack : List Frame} {text gap body : List UInt8} {items : List Json} :
      Opened stack text → Blanks gap → Begun Items items body →
      Opened (.array items :: stack) (text ++ gap ++ '['.toUInt8 :: body)
  | object {stack : List Frame} {text gap body : List UInt8} {members : List (List UInt8 × Json)} :
      Opened stack text → Blanks gap → Begun Members members body →
      Opened (.object members :: stack) (text ++ gap ++ '{'.toUInt8 :: body)
  | member {stack : List Frame} {text name label : List UInt8}
      {members : List (List UInt8 × Json)} :
      Opened (.object members :: stack) text → Label name label →
      Opened (.member members name :: stack) (text ++ label)

/-- The text that has led a reader to where it is. -/
inductive Led : Reader → List UInt8 → Prop
  | value {stack : List Frame} {text gap : List UInt8} :
      Opened stack text → Blanks gap → Led ⟨stack, .value⟩ (text ++ gap)
  | firstItem {stack : List Frame} {text gap : List UInt8} :
      Opened (.array [] :: stack) text → Blanks gap →
      Led ⟨.array [] :: stack, .firstItem⟩ (text ++ gap)
  | firstName {stack : List Frame} {text gap : List UInt8} :
      Opened (.object [] :: stack) text → Blanks gap →
      Led ⟨.object [] :: stack, .firstName⟩ (text ++ gap)
  | nextName {stack : List Frame} {text gap : List UInt8} {members : List (List UInt8 × Json)} :
      Opened (.object members :: stack) text → Blanks gap →
      Led ⟨.object members :: stack, .nextName⟩ (text ++ gap)
  | name {stack : List Frame} {text gap seen : List UInt8} {members : List (List UInt8 × Json)}
      {phase : TextPhase} :
      Opened (.object members :: stack) text → Blanks gap →
      textPhase? .plain seen.reverse = some phase →
      Led ⟨.object members :: stack, .name phase seen⟩ (text ++ gap ++ '"'.toUInt8 :: seen.reverse)
  | colon {stack : List Frame} {text before gap name : List UInt8}
      {members : List (List UInt8 × Json)} :
      Opened (.object members :: stack) text → Blanks before → TextLiteral name → Blanks gap →
      Led ⟨.member members name :: stack, .colon⟩ (text ++ (before ++ quoted name ++ gap))
  | done {stack : List Frame} {text bytes : List UInt8} {v : Json} :
      Opened stack text → Document v bytes → Led ⟨stack, .done v⟩ (text ++ bytes)
  | number {stack : List Frame} {text gap seen : List UInt8} {phase : NumberPhase} :
      Opened stack text → Blanks gap → numberPhase? seen.reverse = some phase →
      Led ⟨stack, .number phase seen⟩ (text ++ gap ++ seen.reverse)
  | text {stack : List Frame} {text gap seen : List UInt8} {phase : TextPhase} :
      Opened stack text → Blanks gap → textPhase? .plain seen.reverse = some phase →
      Led ⟨stack, .text phase seen⟩ (text ++ gap ++ '"'.toUInt8 :: seen.reverse)
  | word {stack : List Frame} {text gap seen rest : List UInt8} {v : Json} :
      Opened stack text → Blanks gap → Written v (seen ++ rest) →
      Led ⟨stack, .word rest v⟩ (text ++ gap ++ seen)

/-! ## Blanks and lists that go on -/

theorem blanks_concat {l : List UInt8} {b : UInt8} (h : Blanks l) (hb : isBlank b = true) :
    Blanks (l ++ [b]) :=
  List.forall_mem_append.mpr ⟨h, List.forall_mem_singleton.mpr (isBlank_iff.mp hb)⟩

theorem document_of_written {v : Json} {gap bytes : List UInt8} (hgap : Blanks gap)
    (h : Written v bytes) : Document v (gap ++ bytes) := by
  have hdoc := Document.mk hgap h blanks_nil
  rwa [List.append_nil] at hdoc

theorem document_concat {v : Json} {bytes : List UInt8} {b : UInt8} (h : Document v bytes)
    (hb : isBlank b = true) : Document v (bytes ++ [b]) := by
  cases h with
  | mk hbefore hwritten hafter =>
    rw [List.append_assoc]
    exact .mk hbefore hwritten (blanks_concat hafter hb)

theorem items_ne_nil {items : List Json} {body : List UInt8} (h : Items items body) :
    items ≠ [] := by
  cases h <;> simp

theorem members_ne_nil {members : List (List UInt8 × Json)} {body : List UInt8}
    (h : Members members body) : members ≠ [] := by
  cases h <;> simp

theorem eq_nil_of_begun {α : Type} {list : List α → List UInt8 → Prop}
    (hlist : ∀ {entries body}, list entries body → entries ≠ []) {body : List UInt8}
    (h : Begun list [] body) : body = [] := by
  cases h with
  | none => rfl
  | some hentries => exact absurd rfl (hlist hentries)

theorem items_of_begun {items : List Json} {body bytes : List UInt8} {v : Json}
    (h : Begun Items items body) (hv : Document v bytes) :
    Items (v :: items).reverse (body ++ bytes) := by
  cases h with
  | none => exact .first hv
  | some hitems =>
    rw [List.reverse_cons, List.append_assoc]
    exact .next hitems hv

theorem members_of_begun {members : List (List UInt8 × Json)} {body label bytes name : List UInt8}
    {v : Json} (h : Begun Members members body) (hname : Label name label)
    (hv : Document v bytes) :
    Members ((name, v) :: members).reverse (body ++ (label ++ bytes)) := by
  cases h with
  | none =>
    have hfirst := Members.first hname hv
    exact hfirst
  | some hmembers =>
    have hnext := Members.next hmembers hname hv
    rwa [List.reverse_cons, List.append_assoc, List.singleton_append]

/-! ## Arrays and objects that go on or end -/

section

variable {stack : List Frame} {text gap bytes : List UInt8} {v : Json}

theorem led_emptyArray (hopen : Opened (.array [] :: stack) text) (hgap : Blanks gap) :
    Led ⟨stack, .done (.array [])⟩ (text ++ gap ++ [']'.toUInt8]) := by
  cases hopen with
  | array houter hgap' hbegun =>
    obtain rfl := eq_nil_of_begun items_ne_nil hbegun
    have hled := Led.done houter (document_of_written hgap' (.noItems hgap))
    simpa only [List.append_assoc, List.cons_append, List.nil_append] using hled

theorem led_emptyObject (hopen : Opened (.object [] :: stack) text) (hgap : Blanks gap) :
    Led ⟨stack, .done (.object [])⟩ (text ++ gap ++ ['}'.toUInt8]) := by
  cases hopen with
  | object houter hgap' hbegun =>
    obtain rfl := eq_nil_of_begun members_ne_nil hbegun
    have hled := Led.done houter (document_of_written hgap' (.noMembers hgap))
    simpa only [List.append_assoc, List.cons_append, List.nil_append] using hled

theorem led_nextItem {items : List Json} (hopen : Opened (.array items :: stack) text)
    (hv : Document v bytes) :
    Led ⟨.array (v :: items) :: stack, .value⟩ (text ++ bytes ++ [','.toUInt8]) := by
  cases hopen with
  | array houter hgap hbegun =>
    have hled := Led.value (.array houter hgap (.some (items_of_begun hbegun hv))) blanks_nil
    simpa only [List.append_assoc, List.cons_append, List.append_nil] using hled

theorem led_arrayEnd {items : List Json} (hopen : Opened (.array items :: stack) text)
    (hv : Document v bytes) :
    Led ⟨stack, .done (.array (v :: items).reverse)⟩ (text ++ bytes ++ [']'.toUInt8]) := by
  cases hopen with
  | array houter hgap hbegun =>
    have hled := Led.done houter (document_of_written hgap (.array (items_of_begun hbegun hv)))
    simpa only [List.append_assoc, List.cons_append] using hled

theorem led_nextMember {members : List (List UInt8 × Json)} {name : List UInt8}
    (hopen : Opened (.member members name :: stack) text) (hv : Document v bytes) :
    Led ⟨.object ((name, v) :: members) :: stack, .nextName⟩
      (text ++ bytes ++ [','.toUInt8]) := by
  cases hopen with
  | member hobject hname =>
    cases hobject with
    | object houter hgap hbegun =>
      have hmembers := members_of_begun hbegun hname hv
      have hled := Led.nextName (.object houter hgap (.some hmembers)) blanks_nil
      simpa only [List.append_assoc, List.cons_append, List.append_nil] using hled

theorem led_objectEnd {members : List (List UInt8 × Json)} {name : List UInt8}
    (hopen : Opened (.member members name :: stack) text) (hv : Document v bytes) :
    Led ⟨stack, .done (.object ((name, v) :: members).reverse)⟩
      (text ++ bytes ++ ['}'.toUInt8]) := by
  cases hopen with
  | member hobject hname =>
    cases hobject with
    | object houter hgap hbegun =>
      have hmembers := members_of_begun hbegun hname hv
      have hled := Led.done houter (document_of_written hgap (.object hmembers))
      simpa only [List.append_assoc, List.cons_append] using hled

end

/-! ## One byte -/

theorem led_begin? {stack : List Frame} {text gap : List UInt8} {b : UInt8} {r : Reader}
    (hopen : Opened stack text) (hgap : Blanks gap) (h : begin? stack b = some r) :
    Led r (text ++ gap ++ [b]) := by
  -- of a word the first byte is gone, but what is written is the whole word
  have hword : ∀ rest v, Written v (b :: rest) →
      Led ⟨stack, .word rest v⟩ (text ++ gap ++ [b]) := fun rest v hv => .word hopen hgap hv
  simp only [begin?] at h
  split at h
  · rename_i hquote
    obtain rfl := Option.some.inj h
    rw [eq_of_beq hquote]
    exact .text hopen hgap rfl
  split at h
  · rename_i hminus
    obtain rfl := Option.some.inj h
    rw [eq_of_beq hminus]
    exact .number hopen hgap rfl
  split at h
  · rename_i hzero
    obtain rfl := Option.some.inj h
    rw [eq_of_beq hzero]
    exact .number hopen hgap rfl
  rename_i hzero
  split at h
  · rename_i hdigit
    obtain rfl := Option.some.inj h
    have hstep : numberStep? .sign b = some .whole :=
      numberStep?_sign (isDigit_iff.mp hdigit) (by simpa using hzero)
    refine .number hopen hgap (numberPhase?_of_foldlM ?_)
    rw [List.reverse_singleton, List.foldlM_cons, hstep]
    rfl
  split at h
  · rename_i harray
    obtain rfl := Option.some.inj h
    have hled := Led.firstItem (.array hopen hgap .none) blanks_nil
    rwa [List.append_nil, ← eq_of_beq harray] at hled
  split at h
  · rename_i hobject
    obtain rfl := Option.some.inj h
    have hled := Led.firstName (.object hopen hgap .none) blanks_nil
    rwa [List.append_nil, ← eq_of_beq hobject] at hled
  split at h
  · rename_i hnull
    obtain rfl := Option.some.inj h
    exact hword _ _ (eq_of_beq hnull ▸ .null)
  split at h
  · rename_i htrue
    obtain rfl := Option.some.inj h
    exact hword _ _ (eq_of_beq htrue ▸ .true)
  split at h
  · rename_i hfalse
    obtain rfl := Option.some.inj h
    exact hword _ _ (eq_of_beq hfalse ▸ .false)
  · simp at h

theorem led_afterValue? {stack : List Frame} {text bytes : List UInt8} {v : Json} {b : UInt8}
    {r : Reader} (hopen : Opened stack text) (hv : Document v bytes)
    (h : afterValue? stack v b = some r) : Led r (text ++ bytes ++ [b]) := by
  unfold afterValue? at h
  split at h
  · rename_i hblank
    obtain rfl := Option.some.inj h
    rw [List.append_assoc]
    exact .done hopen (document_concat hv hblank)
  split at h
  · split at h
    · rename_i hcomma
      obtain rfl := Option.some.inj h
      exact eq_of_beq hcomma ▸ led_nextItem hopen hv
    split at h
    · rename_i hclose
      obtain rfl := Option.some.inj h
      exact eq_of_beq hclose ▸ led_arrayEnd hopen hv
    · simp at h
  · split at h
    · rename_i hcomma
      obtain rfl := Option.some.inj h
      exact eq_of_beq hcomma ▸ led_nextMember hopen hv
    split at h
    · rename_i hclose
      obtain rfl := Option.some.inj h
      exact eq_of_beq hclose ▸ led_objectEnd hopen hv
    · simp at h
  · simp at h

theorem numberPhase?_concat {l : List UInt8} {phase phase' : NumberPhase} {b : UInt8}
    (h : numberPhase? l = some phase) (hstep : numberStep? phase b = some phase') :
    numberPhase? (l ++ [b]) = some phase' := by
  have hfold : ∀ digits, digits.foldlM numberStep? .sign = some phase →
      (digits ++ [b]).foldlM numberStep? .sign = some phase' := by
    intro digits hdigits
    rw [List.foldlM_append, hdigits, Option.bind_eq_bind, Option.bind_some, List.foldlM_cons, hstep]
    rfl
  unfold numberPhase? at h
  split at h
  · exact hfold _ h
  · exact numberPhase?_of_foldlM (hfold _ h)

theorem textPhase?_concat {l : List UInt8} {phase phase' : TextPhase} {b : UInt8}
    (h : textPhase? .plain l = some phase) (hstep : textStep? phase b = some (some phase')) :
    textPhase? .plain (l ++ [b]) = some phase' := by
  rw [textPhase?_append, h, Option.bind_some, textPhase?_cons, hstep]
  rfl

/-- Only a quote outside of an escape ends a literal. -/
theorem textLiteral_of_end {l : List UInt8} {phase : TextPhase} {b : UInt8}
    (h : textPhase? .plain l = some phase) (hend : textStep? phase b = some none) :
    TextLiteral l ∧ b = '"'.toUInt8 := by
  have hplain : phase = .plain ∧ b = '"'.toUInt8 := by
    cases phase <;> grind [textStep?]
  exact ⟨textPhase?_eq_plain_iff.mp (hplain.1 ▸ h), hplain.2⟩

theorem led_text {stack : List Frame} {text gap seen : List UInt8} {phase : TextPhase} {b : UInt8}
    {r : Reader} (hopen : Opened stack text) (hgap : Blanks gap)
    (hphase : textPhase? .plain seen.reverse = some phase)
    (h : step ⟨stack, .text phase seen⟩ b = some r) :
    Led r (text ++ gap ++ '"'.toUInt8 :: seen.reverse ++ [b]) := by
  simp only [step] at h
  split at h
  · simp at h
  · rename_i hend
    obtain ⟨htext, rfl⟩ := textLiteral_of_end hphase hend
    obtain rfl := Option.some.inj h
    have hled := Led.done hopen (document_of_written hgap (.text htext))
    simpa only [quoted, List.append_assoc, List.cons_append] using hled
  · rename_i hstep
    obtain rfl := Option.some.inj h
    have hled := Led.text hopen hgap (List.reverse_cons ▸ textPhase?_concat hphase hstep)
    simpa only [List.append_assoc, List.cons_append, List.reverse_cons] using hled

theorem led_name {stack : List Frame} {members : List (List UInt8 × Json)}
    {text gap seen : List UInt8} {phase : TextPhase} {b : UInt8} {r : Reader}
    (hopen : Opened (.object members :: stack) text) (hgap : Blanks gap)
    (hphase : textPhase? .plain seen.reverse = some phase)
    (h : step ⟨.object members :: stack, .name phase seen⟩ b = some r) :
    Led r (text ++ gap ++ '"'.toUInt8 :: seen.reverse ++ [b]) := by
  simp only [step] at h
  split at h
  · simp at h
  · rename_i hend
    obtain ⟨hname, rfl⟩ := textLiteral_of_end hphase hend
    obtain rfl := Option.some.inj h
    have hled := Led.colon hopen hgap hname blanks_nil
    simpa only [quoted, List.append_assoc, List.cons_append, List.append_nil] using hled
  · rename_i hstep
    obtain rfl := Option.some.inj h
    have hled := Led.name hopen hgap (List.reverse_cons ▸ textPhase?_concat hphase hstep)
    simpa only [List.append_assoc, List.cons_append, List.reverse_cons] using hled

theorem led_number {stack : List Frame} {text gap seen : List UInt8} {phase : NumberPhase}
    {b : UInt8} {r : Reader} (hopen : Opened stack text) (hgap : Blanks gap)
    (hphase : numberPhase? seen.reverse = some phase)
    (h : step ⟨stack, .number phase seen⟩ b = some r) :
    Led r (text ++ gap ++ seen.reverse ++ [b]) := by
  simp only [step] at h
  split at h
  · rename_i hstep
    obtain rfl := Option.some.inj h
    have hled := Led.number hopen hgap (List.reverse_cons ▸ numberPhase?_concat hphase hstep)
    simpa only [List.append_assoc, List.reverse_cons] using hled
  split at h
  · rename_i hend
    have hnumber := numberLiteral_iff.mpr ⟨_, hphase, hend⟩
    have hled := led_afterValue? hopen (document_of_written hgap (.number hnumber)) h
    simpa only [List.append_assoc] using hled
  · simp at h

theorem led_word {stack : List Frame} {text gap seen rest : List UInt8} {v : Json} {b : UInt8}
    {r : Reader} (hopen : Opened stack text) (hgap : Blanks gap) (hv : Written v (seen ++ rest))
    (h : step ⟨stack, .word rest v⟩ b = some r) : Led r (text ++ gap ++ seen ++ [b]) := by
  cases rest with
  | nil => simp [step] at h
  | cons w rest =>
    simp only [step] at h
    split at h
    · rename_i hmatch
      obtain rfl := Option.some.inj h
      rw [List.append_cons, ← eq_of_beq hmatch] at hv
      cases rest with
      | nil =>
        rw [List.append_nil] at hv
        have hled := Led.done hopen (document_of_written hgap hv)
        rwa [← List.append_assoc, ← List.append_assoc] at hled
      | cons w' rest =>
        have hled := Led.word hopen hgap hv
        rwa [← List.append_assoc] at hled
    · simp at h

/-- Every byte that is taken leads the reader further in the same text. -/
theorem led_step {r r' : Reader} {text : List UInt8} {b : UInt8} (hled : Led r text)
    (h : step r b = some r') : Led r' (text ++ [b]) := by
  -- the branches of each case are those of the step in that mode, blanks first
  cases hled with
  | value hopen hgap =>
    simp only [step] at h
    split at h
    · rename_i hblank
      obtain rfl := Option.some.inj h
      rw [List.append_assoc]
      exact .value hopen (blanks_concat hgap hblank)
    · exact led_begin? hopen hgap h
  | firstItem hopen hgap =>
    simp only [step] at h
    split at h
    · rename_i hblank
      obtain rfl := Option.some.inj h
      rw [List.append_assoc]
      exact .firstItem hopen (blanks_concat hgap hblank)
    split at h
    · rename_i hclose
      obtain rfl := Option.some.inj h
      exact eq_of_beq hclose ▸ led_emptyArray hopen hgap
    · exact led_begin? hopen hgap h
  | firstName hopen hgap =>
    simp only [step] at h
    split at h
    · rename_i hblank
      obtain rfl := Option.some.inj h
      rw [List.append_assoc]
      exact .firstName hopen (blanks_concat hgap hblank)
    split at h
    · rename_i hquote
      obtain rfl := Option.some.inj h
      exact eq_of_beq hquote ▸ .name hopen hgap rfl
    split at h
    · rename_i hclose
      obtain rfl := Option.some.inj h
      exact eq_of_beq hclose ▸ led_emptyObject hopen hgap
    · simp at h
  | nextName hopen hgap =>
    simp only [step] at h
    split at h
    · rename_i hblank
      obtain rfl := Option.some.inj h
      rw [List.append_assoc]
      exact .nextName hopen (blanks_concat hgap hblank)
    split at h
    · rename_i hquote
      obtain rfl := Option.some.inj h
      exact eq_of_beq hquote ▸ .name hopen hgap rfl
    · simp at h
  | colon hopen hbefore hname hgap =>
    simp only [step] at h
    split at h
    · rename_i hblank
      obtain rfl := Option.some.inj h
      have hled := Led.colon hopen hbefore hname (blanks_concat hgap hblank)
      simpa only [List.append_assoc] using hled
    split at h
    · rename_i hcolon
      obtain rfl := Option.some.inj h
      have hled := Led.value (.member hopen (.mk hbefore hname hgap)) blanks_nil
      rw [eq_of_beq hcolon]
      simpa only [List.append_assoc, List.append_nil] using hled
    · simp at h
  | done hopen hv => exact led_afterValue? hopen hv h
  | text hopen hgap hphase => exact led_text hopen hgap hphase h
  | name hopen hgap hphase => exact led_name hopen hgap hphase h
  | number hopen hgap hphase => exact led_number hopen hgap hphase h
  | word hopen hgap hwritten => exact led_word hopen hgap hwritten h

theorem led_foldlM {r r' : Reader} {text bytes : List UInt8} (hled : Led r text)
    (h : bytes.foldlM step r = some r') : Led r' (text ++ bytes) :=
  foldlM_extends (fun hled hstep => led_step hled hstep) hled h

theorem document_of_finish? {r : Reader} {text : List UInt8} {v : Json} (hled : Led r text)
    (h : finish? r = some v) : Document v text := by
  cases hled with
  | done hopen hv =>
    cases hopen with
    | top =>
      obtain rfl := Option.some.inj h
      exact hv
    | _ => simp [finish?] at h
  | number hopen hgap hphase =>
    cases hopen with
    | top =>
      simp only [finish?] at h
      split at h
      · rename_i hend
        obtain rfl := Option.some.inj h
        exact document_of_written hgap (.number (numberLiteral_iff.mpr ⟨_, hphase, hend⟩))
      · simp at h
    | _ => simp [finish?] at h
  | _ => simp [finish?] at h

end Reader

/-- The reader accepts exactly the texts that the grammar gives a document. -/
theorem parse?_eq_some_iff {bytes : List UInt8} {v : Json} :
    parse? bytes = some v ↔ Document v bytes := by
  refine ⟨fun h => ?_, parse?_of_document⟩
  obtain ⟨r, hread, hfinish⟩ := Option.bind_eq_some_iff.mp h
  exact Reader.document_of_finish? (Reader.led_foldlM (.value .top blanks_nil) hread) hfinish

end Json
end HomeSync
