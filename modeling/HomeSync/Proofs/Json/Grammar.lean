import HomeSync.Json.Writer

/-
The texts of a document.

Blanks may stand around every value and every name, so a document has many texts.  The
grammar says which ones, independently of how a reader takes them apart.  Lists grow at
their end, since what stands before a comma never depends on what comes after it.
-/
namespace HomeSync
namespace Json

/-! ## Literals -/

def Blanks (l : List UInt8) : Prop := ∀ b ∈ l, b ∈ ([0x20, 0x09, 0x0A, 0x0D] : List UInt8)

def Digit (b : UInt8) : Prop := 0x30 ≤ b ∧ b ≤ 0x39

def HexDigit (b : UInt8) : Prop := Digit b ∨ (0x41 ≤ b ∧ b ≤ 0x46) ∨ (0x61 ≤ b ∧ b ≤ 0x66)

/-- What may stand between the quotes of a string. -/
inductive TextLiteral : List UInt8 → Prop
  | nil : TextLiteral []
  | plain {b : UInt8} {rest : List UInt8} :
      0x20 ≤ b → b ≠ '"'.toUInt8 → b ≠ '\\'.toUInt8 → TextLiteral rest → TextLiteral (b :: rest)
  | escape {b : UInt8} {rest : List UInt8} :
      b ∈ "\"\\/bfnrt".toList.map Char.toUInt8 → TextLiteral rest →
      TextLiteral ('\\'.toUInt8 :: b :: rest)
  | code {digits rest : List UInt8} :
      digits.length = 4 → (∀ b ∈ digits, HexDigit b) → TextLiteral rest →
      TextLiteral ('\\'.toUInt8 :: 'u'.toUInt8 :: (digits ++ rest))

def Digits (l : List UInt8) : Prop := l ≠ [] ∧ ∀ b ∈ l, Digit b

/-- The digits before the point.  Only zero begins with a zero. -/
inductive Whole : List UInt8 → Prop
  | zero : Whole ['0'.toUInt8]
  | digits {b : UInt8} {rest : List UInt8} :
      Digit b → b ≠ '0'.toUInt8 → (∀ b ∈ rest, Digit b) → Whole (b :: rest)

inductive Fraction : List UInt8 → Prop
  | none : Fraction []
  | some {digits : List UInt8} : Digits digits → Fraction ('.'.toUInt8 :: digits)

/-- The letter that begins an exponent, with a sign or without one. -/
inductive Mark : List UInt8 → Prop
  | unsigned {b : UInt8} : b = 'e'.toUInt8 ∨ b = 'E'.toUInt8 → Mark [b]
  | signed {b sign : UInt8} :
      b = 'e'.toUInt8 ∨ b = 'E'.toUInt8 → sign = '+'.toUInt8 ∨ sign = '-'.toUInt8 →
      Mark [b, sign]

inductive Exponent : List UInt8 → Prop
  | none : Exponent []
  | some {mark digits : List UInt8} : Mark mark → Digits digits → Exponent (mark ++ digits)

inductive Unsigned : List UInt8 → Prop
  | parts {whole fraction exponent : List UInt8} :
      Whole whole → Fraction fraction → Exponent exponent → Unsigned (whole ++ fraction ++ exponent)

inductive NumberLiteral : List UInt8 → Prop
  | unsigned {l : List UInt8} : Unsigned l → NumberLiteral l
  | negative {l : List UInt8} : Unsigned l → NumberLiteral ('-'.toUInt8 :: l)

/-! ## Documents -/

/-- A name in its quotes, with the colon after it. -/
inductive Label (name : List UInt8) : List UInt8 → Prop
  | mk {before gap : List UInt8} :
      Blanks before → TextLiteral name → Blanks gap →
      Label name (before ++ quoted name ++ gap ++ [':'.toUInt8])

mutual

/-- A document from its first byte to its last. -/
inductive Written : Json → List UInt8 → Prop
  | null : Written .null ("null".toList.map Char.toUInt8)
  | true : Written (.bool true) ("true".toList.map Char.toUInt8)
  | false : Written (.bool false) ("false".toList.map Char.toUInt8)
  | number {l : List UInt8} : NumberLiteral l → Written (.number l) l
  | text {l : List UInt8} : TextLiteral l → Written (.text l) (quoted l)
  | noItems {gap : List UInt8} :
      Blanks gap → Written (.array []) ('['.toUInt8 :: gap ++ [']'.toUInt8])
  | array {items : List Json} {body : List UInt8} :
      Items items body → Written (.array items) ('['.toUInt8 :: body ++ [']'.toUInt8])
  | noMembers {gap : List UInt8} :
      Blanks gap → Written (.object []) ('{'.toUInt8 :: gap ++ ['}'.toUInt8])
  | object {members : List (List UInt8 × Json)} {body : List UInt8} :
      Members members body → Written (.object members) ('{'.toUInt8 :: body ++ ['}'.toUInt8])

/-- A document with blanks around it. -/
inductive Document : Json → List UInt8 → Prop
  | mk {before after bytes : List UInt8} {v : Json} :
      Blanks before → Written v bytes → Blanks after → Document v (before ++ bytes ++ after)

/-- At least one document, with commas between them. -/
inductive Items : List Json → List UInt8 → Prop
  | first {v : Json} {bytes : List UInt8} : Document v bytes → Items [v] bytes
  | next {items : List Json} {v : Json} {body bytes : List UInt8} :
      Items items body → Document v bytes → Items (items ++ [v]) (body ++ ','.toUInt8 :: bytes)

/-- At least one document under a name, with commas between them. -/
inductive Members : List (List UInt8 × Json) → List UInt8 → Prop
  | first {name : List UInt8} {v : Json} {label bytes : List UInt8} :
      Label name label → Document v bytes → Members [(name, v)] (label ++ bytes)
  | next {members : List (List UInt8 × Json)} {name : List UInt8} {v : Json}
      {body label bytes : List UInt8} :
      Members members body → Label name label → Document v bytes →
      Members (members ++ [(name, v)]) (body ++ ','.toUInt8 :: (label ++ bytes))

end

/-! ## Without blanks -/

theorem blanks_nil : Blanks [] := fun _ h => absurd h List.not_mem_nil

theorem Written.document {v : Json} {bytes : List UInt8} (h : Written v bytes) :
    Document v bytes := by
  have hdoc := Document.mk blanks_nil h blanks_nil
  rwa [List.nil_append, List.append_nil] at hdoc

theorem TextLiteral.label {name : List UInt8} (h : TextLiteral name) :
    Label name (quoted name ++ [':'.toUInt8]) := by
  have hlabel := Label.mk blanks_nil h blanks_nil
  rwa [List.nil_append, List.append_nil] at hlabel

theorem Items.cons {v : Json} {bytes body : List UInt8} {items : List Json}
    (hv : Document v bytes) (h : Items items body) :
    Items (v :: items) (bytes ++ ','.toUInt8 :: body) := by
  match h with
  | .first hw => exact .next (.first hv) hw
  | .next hitems hw =>
    have hnext := Items.next (Items.cons hv hitems) hw
    rwa [List.append_assoc, List.cons_append] at hnext

theorem Members.cons {name : List UInt8} {v : Json} {label bytes body : List UInt8}
    {members : List (List UInt8 × Json)} (hname : Label name label) (hv : Document v bytes)
    (h : Members members body) :
    Members ((name, v) :: members) (label ++ bytes ++ ','.toUInt8 :: body) := by
  match h with
  | .first hname' hw => exact .next (.first hname hv) hname' hw
  | .next hmembers hname' hw =>
    have hnext := Members.next (Members.cons hname hv hmembers) hname' hw
    rwa [List.append_assoc, List.cons_append] at hnext

end Json
end HomeSync
