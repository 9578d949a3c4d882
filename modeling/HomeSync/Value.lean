import HomeSync.Binary64.Text
import HomeSync.Text.Blank
import HomeSync.Text.Caseless

/-
Characteristic values, their formats and their text.

A device reports a value as text.  Reading is lenient about blanks around it,
about letter case and about fractions where an integer is wanted, and strict
about what the format can hold.  The text that is sent to a device has one form
for each value.
-/
namespace HomeSync

inductive Format where
  | bool
  | uint8
  | uint16
  | uint32
  | int32
  | float
  | string
  deriving DecidableEq, Inhabited

inductive Value where
  | bool (b : Bool)
  | int (n : Int64)
  | float (x : Binary64)
  | string (s : String)
  deriving DecidableEq, Inhabited

namespace Format

def isNumeric : Format → Bool
  | .bool | .string => false
  | _ => true

def intRange : Format → Int × Int
  | .uint8 => (0, 255)
  | .uint16 => (0, 65535)
  | .uint32 => (0, 4294967295)
  | .int32 => (-2147483648, 2147483647)
  | _ => (-9223372036854775808, 9223372036854775807)

/-- The value of a characteristic that nobody has reported yet. -/
def initial : Format → Value
  | .bool => .bool false
  | .float => .float Binary64.zero
  | .string => .string ""
  | _ => .int 0

end Format

namespace Value

def integer? (s : String) : Option Int :=
  let (negative, cs) := Binary64.splitSign s.toList
  match Binary64.spanDigits cs with
  | (d :: ds, []) =>
    let n : Nat := (d :: ds).foldl (fun acc d => acc * 10 + d) 0
    some (if negative then -(n : Int) else n)
  | _ => none

def fitsWord (n : Int) : Bool := decide (-9223372036854775808 ≤ n ∧ n ≤ 9223372036854775807)

def word? (s : String) : Option Int := (integer? s).filter fitsWord

/-- The integer that a report means: one in digits, or else a number rounded to
the nearest integer. -/
def nearestWord? (s : String) : Option Int :=
  match word? s with
  | some n => some n
  | none => ((Binary64.ofString? s).bind Binary64.round?).filter fitsWord

def parse (format : Format) (raw : String) : Option Value :=
  let raw := Text.trim raw
  match format with
  | .bool =>
    let word := Text.fold raw
    if word = "1" ∨ word = "true" ∨ word = "on" then some (.bool true)
    else if word = "0" ∨ word = "false" ∨ word = "off" then some (.bool false)
    else none
  | .float => ((Binary64.ofString? raw).filter Binary64.isFinite).map .float
  | .string => some (.string raw)
  | _ =>
    match nearestWord? raw with
    | some n =>
      if format.intRange.1 ≤ n ∧ n ≤ format.intRange.2 then some (.int (Int64.ofInt n)) else none
    | none => none

def toNumber? : Value → Option Binary64
  | .int n => some (Binary64.ofInt n.toInt)
  | .float x => some x
  | _ => none

def toWire : Value → String
  | .bool true => "1"
  | .bool false => "0"
  | .int n => toString n.toInt
  | .float x => x.toText
  | .string s => s

end Value
end HomeSync
