import HomeSync.Binary64.Text
import HomeSync.Text.Hex
import HomeSync.Toml.Basic

/-
The scalars of TOML: strings in four kinds of quotes, and words.

A word is a run of letters, digits and the marks `+ - _ . :`.  None of what may
follow a value belongs to these, so a word is read as a whole and then told
apart: a truth value, a number, a date or a time.
-/
namespace HomeSync
namespace Toml

/-- What a reader makes of the front of a text, and the rest. -/
abbrev Front (α : Type) := Option (α × List Char)

/-! ## Strings -/

def isPlain (c : Char) : Bool := c = '\t' || (0x20 ≤ c.toNat && c.toNat != 0x7F)

def codePoint? (digits : List Char) : Option Char :=
  (Hex.value? digits).bind fun n => if n.isValidChar then some (Char.ofNat n) else none

def escaped? : Char → Option Char
  | 'b' => some (Char.ofNat 8)
  | 't' => some '\t'
  | 'n' => some '\n'
  | 'f' => some (Char.ofNat 12)
  | 'r' => some '\r'
  | '"' => some '"'
  | '\\' => some '\\'
  | _ => none

def push (c : Char) : Front (List Char) → Front (List Char) :=
  Option.map fun r => (c :: r.1, r.2)

/-- A string in quotes, behind the opening quote. -/
def basic : List Char → Front (List Char)
  | '"' :: rest => some ([], rest)
  | '\\' :: 'u' :: a :: b :: c :: d :: rest =>
    (codePoint? [a, b, c, d]).bind fun x => push x (basic rest)
  | '\\' :: 'U' :: a :: b :: c :: d :: e :: f :: g :: h :: rest =>
    (codePoint? [a, b, c, d, e, f, g, h]).bind fun x => push x (basic rest)
  | '\\' :: c :: rest => (escaped? c).bind fun x => push x (basic rest)
  | c :: rest => if isPlain c && c != '\\' then push c (basic rest) else none
  | [] => none

def literal : List Char → Front (List Char)
  | '\'' :: rest => some ([], rest)
  | c :: rest => if isPlain c then push c (literal rest) else none
  | [] => none

def endsLine : List Char → Bool
  | '\n' :: _ => true
  | '\r' :: '\n' :: _ => true
  | c :: rest => (c = ' ' || c = '\t') && endsLine rest
  | [] => false

/-- A string in triple quotes, behind the opening ones.  A backslash at the end
of a line takes all blanks and line ends with it; `skipping` says that this is
going on.  Up to two quotes may stand before the closing ones. -/
def multiline (skipping : Bool) : List Char → Front (List Char)
  | '"' :: '"' :: '"' :: '"' :: '"' :: rest => some (['"', '"'], rest)
  | '"' :: '"' :: '"' :: '"' :: rest => some (['"'], rest)
  | '"' :: '"' :: '"' :: rest => some ([], rest)
  | '\\' :: 'u' :: a :: b :: c :: d :: rest =>
    (codePoint? [a, b, c, d]).bind fun x => push x (multiline false rest)
  | '\\' :: 'U' :: a :: b :: c :: d :: e :: f :: g :: h :: rest =>
    (codePoint? [a, b, c, d, e, f, g, h]).bind fun x => push x (multiline false rest)
  | '\\' :: c :: rest =>
    match escaped? c with
    | some x => push x (multiline false rest)
    | none => if endsLine (c :: rest) then multiline true (c :: rest) else none
  | '\r' :: '\n' :: rest =>
    if skipping then multiline true rest else push '\n' (multiline false rest)
  | '\n' :: rest => if skipping then multiline true rest else push '\n' (multiline false rest)
  | c :: rest =>
    if skipping && (c = ' ' || c = '\t') then multiline true rest
    else if isPlain c && c != '\\' then push c (multiline false rest)
    else none
  | [] => none

def multilineLiteral : List Char → Front (List Char)
  | '\'' :: '\'' :: '\'' :: '\'' :: '\'' :: rest => some (['\'', '\''], rest)
  | '\'' :: '\'' :: '\'' :: '\'' :: rest => some (['\''], rest)
  | '\'' :: '\'' :: '\'' :: rest => some ([], rest)
  | '\r' :: '\n' :: rest => push '\n' (multilineLiteral rest)
  | '\n' :: rest => push '\n' (multilineLiteral rest)
  | c :: rest => if isPlain c then push c (multilineLiteral rest) else none
  | [] => none

def dropLineEnd : List Char → List Char
  | '\n' :: rest => rest
  | '\r' :: '\n' :: rest => rest
  | cs => cs

def lineString? : List Char → Front (List Char)
  | '"' :: rest => basic rest
  | '\'' :: rest => literal rest
  | _ => none

def string? : List Char → Front (List Char)
  | '"' :: '"' :: '"' :: rest => multiline false (dropLineEnd rest)
  | '\'' :: '\'' :: '\'' :: rest => multilineLiteral (dropLineEnd rest)
  | cs => lineString? cs

/-! ## Numbers -/

/-- The digits of a number without the underscores between them.  An underscore
stands between two digits. -/
def ungroup? (isDigit : Char → Bool) : List Char → Option (List Char)
  | [c] => if isDigit c then some [c] else none
  | c :: '_' :: rest =>
    if isDigit c then (ungroup? isDigit rest).map (c :: ·) else none
  | c :: rest => if isDigit c then (ungroup? isDigit rest).map (c :: ·) else none
  | [] => none

/-- The digits of a whole number, which has no leading zero. -/
def whole? (cs : List Char) : Option (List Char) :=
  match ungroup? Char.isDigit cs with
  | some ('0' :: _ :: _) => none
  | digits => digits

def isBinary (c : Char) : Bool := c = '0' || c = '1'

def isOctal (c : Char) : Bool := '0' ≤ c && c ≤ '7'

def isHex (c : Char) : Bool := (Hex.digit? c).isSome

def ofDigits (base : Nat) (digits : List Char) : Nat :=
  digits.foldl (fun n c => n * base + (Hex.digit? c).getD 0) 0

def integer? (word : List Char) : Option Int :=
  let n? : Option Int :=
    match word with
    | '0' :: 'x' :: cs => (ungroup? isHex cs).map fun ds => ofDigits 16 ds
    | '0' :: 'o' :: cs => (ungroup? isOctal cs).map fun ds => ofDigits 8 ds
    | '0' :: 'b' :: cs => (ungroup? isBinary cs).map fun ds => ofDigits 2 ds
    | '-' :: cs => (whole? cs).map fun ds => -(ofDigits 10 ds : Int)
    | '+' :: cs => (whole? cs).map fun ds => ofDigits 10 ds
    | cs => (whole? cs).map fun ds => ofDigits 10 ds
  n?.filter fun n => decide (-9223372036854775808 ≤ n ∧ n ≤ 9223372036854775807)

def isGrouped (c : Char) : Bool := c.isDigit || c = '_'

def exponent? : List Char → Option (List Char)
  | [] => none
  | e :: cs =>
    if e = 'e' ∨ e = 'E' then
      match cs with
      | '-' :: cs => (ungroup? Char.isDigit cs).map ('e' :: '-' :: ·)
      | '+' :: cs => (ungroup? Char.isDigit cs).map ('e' :: ·)
      | cs => (ungroup? Char.isDigit cs).map ('e' :: ·)
    else none

/-- A float without sign, as it is written without underscores: a whole number
with a fraction, an exponent or both. -/
def decimal? (cs : List Char) : Option (List Char) := do
  let whole ← whole? (cs.takeWhile isGrouped)
  match cs.dropWhile isGrouped with
  | '.' :: cs =>
    let fraction ← ungroup? Char.isDigit (cs.takeWhile isGrouped)
    match cs.dropWhile isGrouped with
    | [] => return whole ++ '.' :: fraction
    | cs => return whole ++ '.' :: fraction ++ (← exponent? cs)
  | cs => return whole ++ (← exponent? cs)

/-- A float.  A number that is too large is refused, one that is too small
becomes the negative infinity. -/
def float? (word : List Char) : Option Binary64 :=
  let (negative, cs) := Binary64.splitSign word
  if cs = ['i', 'n', 'f'] then some (.infinite negative)
  else if cs = ['n', 'a', 'n'] then some .nan
  else
    match (decimal? cs).bind fun cs => Binary64.ofString? (String.ofList cs) with
    | some (.infinite _) => if negative then some (.infinite true) else none
    | x => x.map (if negative then Binary64.negate else id)

/-! ## Dates and times -/

def pair? (a b : Char) : Option Nat :=
  if a.isDigit && b.isDigit then some (ofDigits 10 [a, b]) else none

def isLeap (year : Nat) : Bool := year % 4 = 0 && (year % 100 != 0 || year % 400 = 0)

def daysIn (year month : Nat) : Nat :=
  if month = 2 then (if isLeap year then 29 else 28)
  else if month = 4 ∨ month = 6 ∨ month = 9 ∨ month = 11 then 30
  else 31

def afterDate? : List Char → Option (List Char)
  | a :: b :: c :: d :: '-' :: e :: f :: '-' :: g :: h :: rest =>
    match pair? a b, pair? c d, pair? e f, pair? g h with
    | some century, some years, some month, some day =>
      if 1 ≤ month ∧ month ≤ 12 ∧ 1 ≤ day ∧ day ≤ daysIn (century * 100 + years) month
      then some rest else none
    | _, _, _, _ => none
  | _ => none

def afterMinutes? : List Char → Option (List Char)
  | a :: b :: ':' :: c :: d :: rest =>
    match pair? a b, pair? c d with
    | some hour, some minute => if hour ≤ 23 ∧ minute ≤ 59 then some rest else none
    | _, _ => none
  | _ => none

/-- The rest behind a time with seconds.  A sixtieth second may be leapt. -/
def afterTime? (cs : List Char) : Option (List Char) :=
  match afterMinutes? cs with
  | some (':' :: a :: b :: rest) =>
    match pair? a b with
    | some second =>
      if second ≤ 60 then
        match rest with
        | '.' :: c :: rest => if c.isDigit then some (rest.dropWhile Char.isDigit) else none
        | rest => some rest
      else none
    | none => none
  | _ => none

def isOffset : List Char → Bool
  | [] => true
  | [c] => c = 'Z' || c = 'z'
  | c :: cs => (c = '+' || c = '-') && afterMinutes? cs == some []

def isOffsetTime (cs : List Char) : Bool := (afterTime? cs).any isOffset

def isTime (word : List Char) : Bool :=
  afterTime? word == some [] ||
    match afterDate? word with
    | some [] => true
    | some (c :: cs) => (c = 'T' || c = 't') && isOffsetTime cs
    | none => false

/-! ## Words -/

def isWordChar (c : Char) : Bool :=
  c.isAlphanum || c = '+' || c = '-' || c = '_' || c = '.' || c = ':'

def ofWord? (word : List Char) : Option Toml :=
  if word = "true".toList then some (.bool true)
  else if word = "false".toList then some (.bool false)
  else if isTime word then some .time
  else
    match integer? word with
    | some n => some (.integer n)
    | none => (float? word).map .float

/-- A value that is written as a word.  A blank may stand between a date and a
time. -/
def word? (cs : List Char) : Front Toml :=
  let word := cs.takeWhile isWordChar
  let rest := cs.dropWhile isWordChar
  match rest with
  | ' ' :: more =>
    if afterDate? word == some [] && isOffsetTime (more.takeWhile isWordChar) then
      some (.time, more.dropWhile isWordChar)
    else (ofWord? word).map (·, rest)
  | _ => (ofWord? word).map (·, rest)

end Toml
end HomeSync
