import HomeSync.Binary64.Basic

/-
Decimal text of binary64 numbers.

Reading rounds the written decimal to the nearest number.  Writing takes the
fewest digits that read back to the number, and of those the nearest, without
an exponent.
-/
namespace HomeSync
namespace Binary64

/-! ## Reading -/

/-- The number nearest to `digits * 10 ^ exponent`, the digits most significant
first and without leading zeros.  Decimals far outside the range are settled
by their size, before any power of ten is computed. -/
def ofDecimal (negative : Bool) (digits : List Nat) (exponent : Int) : Binary64 :=
  let size : Int := digits.length + exponent
  if digits.isEmpty ∨ size < -330 then .finite negative 0 minExponent
  else if size > 310 then .infinite negative
  else
    let n := digits.foldl (fun acc d => acc * 10 + d) 0
    ofFraction negative (n * Nat.pow 10 exponent.toNat) (Nat.pow 10 (-exponent).toNat)

def digit? (c : Char) : Option Nat := if c.isDigit then some (c.toNat - 48) else none

def spanDigits : List Char → List Nat × List Char
  | [] => ([], [])
  | c :: cs =>
    match digit? c with
    | some d => (d :: (spanDigits cs).1, (spanDigits cs).2)
    | none => ([], c :: cs)

def splitSign : List Char → Bool × List Char
  | '-' :: cs => (true, cs)
  | '+' :: cs => (false, cs)
  | cs => (false, cs)

def exponent? : List Char → Option Int
  | [] => some 0
  | c :: cs =>
    if c = 'e' ∨ c = 'E' then
      let (negative, cs) := splitSign cs
      match spanDigits cs with
      | (d :: ds, []) =>
        let n : Nat := (d :: ds).foldl (fun acc d => acc * 10 + d) 0
        some (if negative then -(n : Int) else n)
      | _ => none
    else none

/-- A decimal without sign: digits, of which some may stand behind a point, and
an exponent part. -/
def decimal? (negative : Bool) (cs : List Char) : Option Binary64 :=
  let (whole, cs) := spanDigits cs
  let (fraction, cs) :=
    match cs with
    | '.' :: cs => spanDigits cs
    | cs => ([], cs)
  if whole.isEmpty ∧ fraction.isEmpty then none
  else
    (exponent? cs).map fun e =>
      ofDecimal negative ((whole ++ fraction).dropWhile (· == 0)) (e - fraction.length)

/-- Read a number: a decimal, or one of the words for infinity and NaN in any
letter case, with an optional sign. -/
def ofString? (s : String) : Option Binary64 :=
  let (negative, cs) := splitSign s.toList
  let word := cs.map Char.toLower
  if word = "inf".toList ∨ word = "infinity".toList then some (.infinite negative)
  else if word = "nan".toList then some .nan
  else decimal? negative cs

/-! ## Writing

The decimals that read back to `m * 2 ^ e` form an interval around it, half a
unit to either side, and only a quarter below a power of two.  In quarters of
`2 ^ e` its ends are whole numbers; they belong to it if `m` is even. -/

def lowQuarters (m : Nat) (e : Int) : Nat :=
  if m = Nat.pow 2 52 ∧ minExponent < e then 4 * m - 1 else 4 * m - 2

def highQuarters (m : Nat) : Nat := 4 * m + 2

/-- Factors that bring `d * 10 ^ k` and `w * 2 ^ (e - 2)` to the same scale. -/
def scales (e k : Int) : Nat × Nat :=
  (Nat.pow 10 k.toNat * Nat.pow 2 (2 - e).toNat, Nat.pow 10 (-k).toNat * Nat.pow 2 (e - 2).toNat)

/-- Whether `d * 10 ^ k` reads back to `m * 2 ^ e`. -/
def readsBack (m : Nat) (e : Int) (d : Nat) (k : Int) : Bool :=
  let (ten, two) := scales e k
  if m % 2 = 0 then decide (lowQuarters m e * two ≤ d * ten ∧ d * ten ≤ highQuarters m * two)
  else decide (lowQuarters m e * two < d * ten ∧ d * ten < highQuarters m * two)

/-- The nearest multiple of `10 ^ k` that reads back to `m * 2 ^ e`.  Only the
two neighbours of the number can be it; half-way between them the upper one is
taken. -/
def candidate? (m : Nat) (e : Int) (k : Int) : Option Nat :=
  let (ten, two) := scales e k
  let d := 4 * m * two / ten
  match readsBack m e d k, readsBack m e (d + 1) k with
  | true, true => some (if 2 * (4 * m * two) < (2 * d + 1) * ten then d else d + 1)
  | true, false => some d
  | false, true => some (d + 1)
  | false, false => none

def search (m : Nat) (e : Int) : (tries : Nat) → Int → Nat × Int
  | 0, k => (0, k)
  | tries + 1, k =>
    match candidate? m e k with
    | some d => (d, k)
    | none => search m e tries (k - 1)

/-- The shortest decimal of `m * 2 ^ e` for a positive mantissa, as a number and
a power of ten.  The search starts above the number and needs at most seventeen
digits. -/
def shortest (m : Nat) (e : Int) : Nat × Int :=
  search m e 24 (((m.log2 : Int) + e + 1) * 30103 / 100000 + 2)

def positional (d : Nat) (k : Int) : List Char :=
  let digits := Nat.toDigits 10 d
  if 0 ≤ k then digits ++ List.replicate k.toNat '0'
  else
    let places := (-k).toNat
    let padded := List.replicate (places + 1 - digits.length) '0' ++ digits
    padded.take (padded.length - places) ++ '.' :: padded.drop (padded.length - places)

/-- The text of a number.  A whole number has no point, and the sign of zero
shows. -/
def toText : Binary64 → String
  | .nan => "NaN"
  | .infinite false => "inf"
  | .infinite true => "-inf"
  | .finite negative m e =>
    let body := if m = 0 then ['0'] else positional (shortest m e).1 (shortest m e).2
    String.ofList (if negative then '-' :: body else body)

end Binary64
end HomeSync
