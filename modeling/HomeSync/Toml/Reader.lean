import HomeSync.Toml.Scalar

/-
Reading TOML.

Values nest at most so deep, which bounds the recursion into arrays and tables
in braces.  The items of one of these, and the lines of a document, are read
from left to right, and as every one takes at least one character, the length
of the text bounds their number.
-/
namespace HomeSync
namespace Toml

/-- How deep arrays and tables in braces may nest, and how many parts a key may
have. -/
def maxDepth : Nat := 79

/-! ## Blanks and comments -/

def dropBlanks (cs : List Char) : List Char := cs.dropWhile fun c => c = ' ' || c = '\t'

/-- The rest behind a line end, which the end of the text is too. -/
def lineEnd? : List Char → Option (List Char)
  | [] => some []
  | '\n' :: rest => some rest
  | '\r' :: '\n' :: rest => some rest
  | _ => none

def trailing? (cs : List Char) : Option (List Char) :=
  match dropBlanks cs with
  | '#' :: rest => lineEnd? (rest.dropWhile isPlain)
  | rest => lineEnd? rest

/-- Drop blanks, line ends and comments; `comment` says that one has begun. -/
def dropLines? (comment : Bool) : List Char → Option (List Char)
  | '\n' :: rest => dropLines? false rest
  | '\r' :: '\n' :: rest => dropLines? false rest
  | c :: rest =>
    if comment then (if isPlain c then dropLines? true rest else none)
    else if c = ' ' ∨ c = '\t' then dropLines? false rest
    else if c = '#' then dropLines? true rest
    else some (c :: rest)
  | [] => some []

/-! ## Keys -/

def isBare (c : Char) : Bool := c.isAlphanum || c = '-' || c = '_'

def keyPart? (cs : List Char) : Front String :=
  match cs with
  | '"' :: _ | '\'' :: _ => (lineString? cs).map fun r => (String.ofList r.1, r.2)
  | _ =>
    match cs.takeWhile isBare with
    | [] => none
    | part => some (String.ofList part, cs.dropWhile isBare)

/-- A key of at most so many parts, with the blanks around it. -/
def keyParts? : (parts : Nat) → List Char → Front Key
  | 0, _ => none
  | parts + 1, cs =>
    match keyPart? (dropBlanks cs) with
    | none => none
    | some (part, rest) =>
      match dropBlanks rest with
      | '.' :: rest =>
        (keyParts? parts rest).map fun r => (⟨part :: r.1.path, r.1.last⟩, r.2)
      | rest => some (⟨[], part⟩, rest)

def key? (cs : List Char) : Front Key := keyParts? maxDepth cs

/-! ## Values -/

def items? (value? : List Char → Front Toml) : (count : Nat) → List Char → Front (List Toml)
  | 0, _ => none
  | count + 1, cs =>
    match dropLines? false cs with
    | some (']' :: rest) => some ([], rest)
    | some cs =>
      match value? cs with
      | none => none
      | some (item, rest) =>
        match dropLines? false rest with
        | some (',' :: rest) => (items? value? count rest).map fun r => (item :: r.1, r.2)
        | some (']' :: rest) => some ([item], rest)
        | _ => none
    | none => none

def assignment? (value? : List Char → Front Toml) (cs : List Char) : Front (Key × Toml) :=
  match key? cs with
  | some (key, '=' :: rest) => (value? (dropBlanks rest)).map fun r => ((key, r.1), r.2)
  | _ => none

/-- The entries of a table in braces, at least one, behind the opening brace or
a comma. -/
def entries? (value? : List Char → Front Toml) :
    (count : Nat) → List Char → Front (List (Key × Toml))
  | 0, _ => none
  | count + 1, cs =>
    match assignment? value? cs with
    | none => none
    | some (entry, rest) =>
      match dropBlanks rest with
      | ',' :: rest => (entries? value? count rest).map fun r => (entry :: r.1, r.2)
      | '}' :: rest => some ([entry], rest)
      | _ => none

/-- A value that nests at most so deep. -/
def value? : (depth : Nat) → List Char → Front Toml
  | 0, cs => scalar? cs
  | depth + 1, cs =>
    match cs with
    | '[' :: rest => (items? (value? depth) (rest.length + 1) rest).map fun r => (.array r.1, r.2)
    | '{' :: rest =>
      match dropBlanks rest with
      | '}' :: rest => some (.table .inline [], rest)
      | rest =>
        (entries? (value? depth) rest.length rest).bind fun r => (inline? r.1).map (·, r.2)
    | cs => scalar? cs
where
  scalar? (cs : List Char) : Front Toml :=
    match cs with
    | '"' :: _ | '\'' :: _ => (string? cs).map fun r => (.string (String.ofList r.1), r.2)
    | cs => word? cs

/-! ## Documents -/

def header? (closing : List Char) (cs : List Char) : Front Key :=
  match key? cs with
  | some (key, rest) =>
    if closing.isPrefixOf rest then some (key, rest.drop closing.length) else none
  | none => none

def statement? : List Char → Front Statement
  | '[' :: '[' :: rest => (header? [']', ']'] rest).map fun r => (.element r.1, r.2)
  | '[' :: rest => (header? [']'] rest).map fun r => (.table r.1, r.2)
  | cs => (assignment? (value? maxDepth) cs).map fun r => (.entry r.1.1 r.1.2, r.2)

def statements? : (count : Nat) → List Char → Option (List Statement)
  | 0, _ => none
  | count + 1, cs =>
    match dropLines? false cs with
    | none => none
    | some [] => some []
    | some cs => do
      let (s, rest) ← statement? cs
      return s :: (← statements? count (← trailing? rest))

/-- Read a document.  A byte order mark may stand in front. -/
def parse? (text : String) : Option Toml :=
  let cs := text.toList
  let cs := if cs.head? = some (Char.ofNat 0xFEFF) then cs.tail else cs
  ((statements? (cs.length + 1) cs).bind ofStatements?).map (.table .header)

end Toml
end HomeSync
