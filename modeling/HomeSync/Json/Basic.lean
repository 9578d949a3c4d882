import HomeSync.Text.Hex
import HomeSync.Text.Utf8

/-
JSON documents with their scalars as written.

A document keeps the bytes of its numbers and strings.  What a number or a
string means is asked for only where the answer is needed, so a document may
hold numbers out of any range and strings that are no text, as long as nobody
looks at them.
-/
namespace HomeSync

/-- A JSON document.  `number` and `text` hold the literal, for a text without
its quotes.  The members of an object keep their order and repetitions. -/
inductive Json where
  | null
  | bool (b : Bool)
  | number (literal : List UInt8)
  | text (literal : List UInt8)
  | array (items : List Json)
  | object (members : List (List UInt8 × Json))
  deriving Inhabited

namespace Json

/-! ## Texts -/

def escaped? : Char → Option Char
  | '"' => some '"'
  | '\\' => some '\\'
  | '/' => some '/'
  | 'b' => some (Char.ofNat 8)
  | 'f' => some (Char.ofNat 12)
  | 'n' => some '\n'
  | 'r' => some '\r'
  | 't' => some '\t'
  | _ => none

def isHighSurrogate (n : Nat) : Bool := 0xD800 ≤ n && n ≤ 0xDBFF

def isLowSurrogate (n : Nat) : Bool := 0xDC00 ≤ n && n ≤ 0xDFFF

def pairCode (high low : Nat) : Nat := 0x10000 + (high - 0xD800) * 1024 + (low - 0xDC00)

/-- Resolve the escapes of a string.  A surrogate counts only as half of a
pair. -/
def unescape : List Char → Option (List Char)
  | [] => some []
  | '\\' :: 'u' :: a :: b :: c :: d :: rest =>
    match Hex.value? [a, b, c, d] with
    | none => none
    | some n =>
      if isHighSurrogate n then
        match rest with
        | '\\' :: 'u' :: e :: f :: g :: h :: rest =>
          match Hex.value? [e, f, g, h] with
          | none => none
          | some m =>
            if isLowSurrogate m then (unescape rest).map (Char.ofNat (pairCode n m) :: ·) else none
        | _ => none
      else if isLowSurrogate n then none
      else (unescape rest).map (Char.ofNat n :: ·)
  | '\\' :: c :: rest =>
    match escaped? c with
    | none => none
    | some e => (unescape rest).map (e :: ·)
  | ['\\'] => none
  | c :: rest => (unescape rest).map (c :: ·)

def textOf? (literal : List UInt8) : Option String :=
  (Utf8.decode? literal).bind fun s => (unescape s.toList).map String.ofList

/-- The characters that stand for one character in a string literal.  Only the
quote, the backslash and control characters need an escape. -/
def escapeChar (c : Char) : List Char :=
  if c = '"' then ['\\', '"']
  else if c = '\\' then ['\\', '\\']
  else if c.toNat = 8 then ['\\', 'b']
  else if c.toNat = 12 then ['\\', 'f']
  else if c = '\n' then ['\\', 'n']
  else if c = '\r' then ['\\', 'r']
  else if c = '\t' then ['\\', 't']
  else if c.toNat < 32 then '\\' :: 'u' :: Hex.padded 4 c.toNat
  else [c]

def literal (s : String) : List UInt8 :=
  Utf8.encode (String.ofList (s.toList.flatMap escapeChar))

def ofString (s : String) : Json := .text (literal s)

def member (name : String) (v : Json) : List UInt8 × Json := (literal name, v)

/-! ## Integers -/

def digitsValue? (digits : List UInt8) : Option Nat :=
  digits.foldlM
    (fun n b => if 0x30 ≤ b ∧ b ≤ 0x39 then some (n * 10 + (b.toNat - 0x30)) else none) 0

/-- The integer of a number literal that is written as an integer.  A negative
zero is not one. -/
def integerOf? : List UInt8 → Option Int
  | 0x2D :: digits =>
    match digitsValue? digits with
    | some (n + 1) => some (Int.negSucc n)
    | _ => none
  | digits => (digitsValue? digits).map Int.ofNat

def wordOf? (literal : List UInt8) : Option Int64 :=
  match integerOf? literal with
  | some n =>
    if -9223372036854775808 ≤ n ∧ n ≤ 9223372036854775807 then some (Int64.ofInt n) else none
  | none => none

def ofWord (n : Int64) : Json := .number (Utf8.encode (toString n.toInt))

end Json
end HomeSync
