import HomeSync.Sha256
import HomeSync.Text.Hex
import HomeSync.Text.Utf8

/-
Stable identifiers.

The id of an accessory comes from a hash of the device topic, so a bridge that
starts again shows a known device under its old id.  The id of a service or
characteristic comes from its type code.  Both lie above the low numbers that
are given out by counting.
-/
namespace HomeSync
namespace Identity

def topicTag : UInt8 := 0x0F

def typeBase : Nat := 0x100000000

def ofBytes (bytes : List UInt8) : Nat := bytes.foldl (fun n b => n * 256 + b.toNat) 0

/-- The accessory id of a device topic: the tag and the first seven bytes of the
hash of the topic. -/
def topicId (topic : String) : Nat :=
  ofBytes (topicTag :: (Sha256.digest (Utf8.encode topic)).take 7)

/-- The id of a type code of one to sixteen hexadecimal digits, if it fits into
sixty-four bits. -/
def typeId? (code : String) : Option Nat :=
  if code.isEmpty then none
  else
    match Hex.value? code.toList with
    | none => none
    | some n => if code.length ≤ 16 ∧ n + typeBase < UInt64.size then some (n + typeBase) else none

end Identity
end HomeSync
