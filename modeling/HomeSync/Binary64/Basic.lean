/-
Binary floating-point numbers of fifty-three significant bits, exactly.

A finite number is a sign, a mantissa and a power of two.  Every finite number
is a whole multiple of `2 ^ -1074`, and that multiple decides comparisons and
the rounding to integers, so none of them can lose anything.  Fractions are
rounded to the nearest number, half-way cases to the even mantissa.
-/
namespace HomeSync

/-- A binary64 number.  `finite negative mantissa exponent` stands for
`mantissa * 2 ^ exponent` with the given sign. -/
inductive Binary64 where
  | nan
  | infinite (negative : Bool)
  | finite (negative : Bool) (mantissa : Nat) (exponent : Int)
  deriving DecidableEq

namespace Binary64

def minExponent : Int := -1074

def maxExponent : Int := 971

def mantissaLimit : Nat := Nat.pow 2 53

/-- The quotient of two numbers, rounded to the nearest integer and half-way
cases to the even one. -/
def roundQuotient (num den : Nat) : Nat :=
  let q := num / den
  let r := num % den
  if 2 * r < den ∨ (2 * r = den ∧ q % 2 = 0) then q else q + 1

/-- The fraction `num / den` in units of `2 ^ exponent`, rounded. -/
def mantissaAt (num den : Nat) (exponent : Int) : Nat :=
  roundQuotient (num * Nat.pow 2 (-exponent).toNat) (den * Nat.pow 2 exponent.toNat)

/-- The first exponent, counting up, at which the rounded mantissa is below the
limit.  The number of tries is bounded by `tries`. -/
def fitExponent (num den : Nat) : (tries : Nat) → Int → Int
  | 0, e => e
  | tries + 1, e =>
    if mantissaAt num den e < mantissaLimit then e else fitExponent num den tries (e + 1)

/-- The number nearest to a fraction.  The fraction lies between the powers of
two that its logarithms name, so the exponent is one of four. -/
def ofFraction (negative : Bool) (num den : Nat) : Binary64 :=
  let low := max minExponent ((num.log2 : Int) - den.log2 - 54)
  let e := fitExponent num den 3 low
  if e ≤ maxExponent then .finite negative (mantissaAt num den e) e else .infinite negative

def ofInt (n : Int) : Binary64 := ofFraction (n < 0) n.natAbs 1

def zero : Binary64 := .finite false 0 minExponent

/-- How often `2 ^ -1074` goes into a finite number, with its sign. -/
def multiple (negative : Bool) (mantissa : Nat) (exponent : Int) : Int :=
  let n : Nat := mantissa * Nat.pow 2 (exponent - minExponent).toNat
  if negative then -(n : Int) else n

/-- Numeric order, in which nothing compares with NaN and the zeros are equal. -/
def le : Binary64 → Binary64 → Bool
  | .nan, _ => false
  | _, .nan => false
  | .infinite true, _ => true
  | _, .infinite false => true
  | .infinite false, _ => false
  | _, .infinite true => false
  | .finite s m e, .finite s' m' e' => decide (multiple s m e ≤ multiple s' m' e')

/-- Numeric equality: NaN differs from itself and the zeros are equal. -/
def same (a b : Binary64) : Bool := le a b && le b a

def negate : Binary64 → Binary64
  | .nan => .nan
  | .infinite negative => .infinite !negative
  | .finite negative mantissa exponent => .finite (!negative) mantissa exponent

def isFinite : Binary64 → Bool
  | .finite .. => true
  | _ => false

def round? : Binary64 → Option Int
  | .finite negative mantissa exponent =>
    let unit : Nat := Nat.pow 2 1074
    let n := (2 * (multiple false mantissa exponent).toNat + unit) / (2 * unit)
    some (if negative then -(n : Int) else n)
  | _ => none

end Binary64
end HomeSync
