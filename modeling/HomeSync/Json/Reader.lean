import HomeSync.Json.Basic

/-
Reading JSON one byte at a time.

The reader keeps the unfinished arrays and objects on a stack of its own, so a
document may nest as deep as it likes, and it looks at every byte once.  It
checks the grammar and the form of escapes; it does not ask what a string or a
number means.
-/
namespace HomeSync
namespace Json

inductive NumberPhase where
  | sign
  | zero
  | whole
  | point
  | fraction
  | mark
  | markSign
  | exponent
  deriving DecidableEq

inductive TextPhase where
  | plain
  | escape
  /-- Within an escape by code, with so many digits to come. -/
  | code (digits : Nat)
  deriving DecidableEq

/-- An array or object that has begun.  The items and members are in reverse
order. -/
inductive Frame where
  | array (items : List Json)
  | object (members : List (List UInt8 × Json))
  | member (members : List (List UInt8 × Json)) (name : List UInt8)

/-- What the reader is in the middle of.  The bytes of a literal are kept in
reverse order. -/
inductive Mode where
  | value
  | firstItem
  | firstName
  | nextName
  | colon
  | done (v : Json)
  | number (phase : NumberPhase) (seen : List UInt8)
  | text (phase : TextPhase) (seen : List UInt8)
  | name (phase : TextPhase) (seen : List UInt8)
  | word (rest : List UInt8) (v : Json)

structure Reader where
  stack : List Frame
  mode : Mode

namespace Reader

def start : Reader := ⟨[], .value⟩

def isBlank (b : UInt8) : Bool := b == 0x20 || b == 0x09 || b == 0x0A || b == 0x0D

def isDigit (b : UInt8) : Bool := 0x30 ≤ b && b ≤ 0x39

def isHexDigit (b : UInt8) : Bool :=
  isDigit b || (0x41 ≤ b && b ≤ 0x46) || (0x61 ≤ b && b ≤ 0x66)

/-- The letters that may follow a backslash, but for the one that starts a
code. -/
def isEscape (b : UInt8) : Bool := "\"\\/bfnrt".toList.any fun c => c.toUInt8 == b

/-- The phase of a number after one more byte, if the byte belongs to it. -/
def numberStep? (phase : NumberPhase) (b : UInt8) : Option NumberPhase :=
  let digit := isDigit b
  let isPoint := b == '.'.toUInt8
  let isMark := b == 'e'.toUInt8 || b == 'E'.toUInt8
  match phase with
  | .sign => if b == '0'.toUInt8 then some .zero else if digit then some .whole else none
  | .zero => if isPoint then some .point else if isMark then some .mark else none
  | .whole =>
    if digit then some .whole else if isPoint then some .point
    else if isMark then some .mark else none
  | .point => if digit then some .fraction else none
  | .fraction => if digit then some .fraction else if isMark then some .mark else none
  | .mark =>
    if digit then some .exponent
    else if b == '+'.toUInt8 || b == '-'.toUInt8 then some .markSign else none
  | .markSign => if digit then some .exponent else none
  | .exponent => if digit then some .exponent else none

def mayEnd : NumberPhase → Bool
  | .zero | .whole | .fraction | .exponent => true
  | _ => false

def begin? (stack : List Frame) (b : UInt8) : Option Reader :=
  if b == '"'.toUInt8 then some ⟨stack, .text .plain []⟩
  else if b == '-'.toUInt8 then some ⟨stack, .number .sign [b]⟩
  else if b == '0'.toUInt8 then some ⟨stack, .number .zero [b]⟩
  else if isDigit b then some ⟨stack, .number .whole [b]⟩
  else if b == '['.toUInt8 then some ⟨.array [] :: stack, .firstItem⟩
  else if b == '{'.toUInt8 then some ⟨.object [] :: stack, .firstName⟩
  else if b == 'n'.toUInt8 then some ⟨stack, .word ("ull".toList.map Char.toUInt8) .null⟩
  else if b == 't'.toUInt8 then some ⟨stack, .word ("rue".toList.map Char.toUInt8) (.bool true)⟩
  else if b == 'f'.toUInt8 then some ⟨stack, .word ("alse".toList.map Char.toUInt8) (.bool false)⟩
  else none

def afterValue? (stack : List Frame) (v : Json) (b : UInt8) : Option Reader :=
  if isBlank b then some ⟨stack, .done v⟩
  else
    match stack with
    | .array items :: rest =>
      if b == ','.toUInt8 then some ⟨.array (v :: items) :: rest, .value⟩
      else if b == ']'.toUInt8 then some ⟨rest, .done (.array (v :: items).reverse)⟩
      else none
    | .member members name :: rest =>
      if b == ','.toUInt8 then some ⟨.object ((name, v) :: members) :: rest, .nextName⟩
      else if b == '}'.toUInt8 then
        some ⟨rest, .done (.object ((name, v) :: members).reverse)⟩
      else none
    | _ => none

/-- The phase of a string after one more byte, `none` at its end. -/
def textStep? (phase : TextPhase) (b : UInt8) : Option (Option TextPhase) :=
  match phase with
  | .plain =>
    if b == '"'.toUInt8 then some none
    else if b == '\\'.toUInt8 then some (some .escape)
    else if b < 0x20 then none
    else some (some .plain)
  | .escape =>
    if b == 'u'.toUInt8 then some (some (.code 4))
    else if isEscape b then some (some .plain) else none
  | .code digits =>
    if isHexDigit b then some (some (if digits ≤ 1 then .plain else .code (digits - 1))) else none

def step (r : Reader) (b : UInt8) : Option Reader :=
  match r.mode with
  | .value => if isBlank b then some r else begin? r.stack b
  | .firstItem =>
    if isBlank b then some r
    else if b == ']'.toUInt8 then
      match r.stack with
      | .array _ :: rest => some ⟨rest, .done (.array [])⟩
      | _ => none
    else begin? r.stack b
  | .firstName =>
    if isBlank b then some r
    else if b == '"'.toUInt8 then some { r with mode := .name .plain [] }
    else if b == '}'.toUInt8 then
      match r.stack with
      | .object _ :: rest => some ⟨rest, .done (.object [])⟩
      | _ => none
    else none
  | .nextName =>
    if isBlank b then some r
    else if b == '"'.toUInt8 then some { r with mode := .name .plain [] }
    else none
  | .colon =>
    if isBlank b then some r
    else if b == ':'.toUInt8 then some { r with mode := .value } else none
  | .done v => afterValue? r.stack v b
  | .number phase seen =>
    match numberStep? phase b with
    | some phase => some { r with mode := .number phase (b :: seen) }
    | none => if mayEnd phase then afterValue? r.stack (.number seen.reverse) b else none
  | .text phase seen =>
    match textStep? phase b with
    | none => none
    | some none => some { r with mode := .done (.text seen.reverse) }
    | some (some phase) => some { r with mode := .text phase (b :: seen) }
  | .name phase seen =>
    match textStep? phase b with
    | none => none
    | some none =>
      match r.stack with
      | .object members :: rest => some ⟨.member members seen.reverse :: rest, .colon⟩
      | _ => none
    | some (some phase) => some { r with mode := .name phase (b :: seen) }
  | .word rest v =>
    match rest with
    | [] => none
    | w :: rest =>
      if b == w then
        some { r with mode := if rest.isEmpty then .done v else .word rest v }
      else none

def finish? (r : Reader) : Option Json :=
  match r.stack, r.mode with
  | [], .done v => some v
  | [], .number phase seen => if mayEnd phase then some (.number seen.reverse) else none
  | _, _ => none

end Reader

/-- Read a document that takes up all the bytes but for blanks around it. -/
def parse? (bytes : List UInt8) : Option Json :=
  (bytes.foldlM Reader.step Reader.start).bind Reader.finish?

end Json
end HomeSync
