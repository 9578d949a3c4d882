import HomeSync.Device.Basic
import HomeSync.Value

/-
Characteristics: the single values of an accessory.

A device reports a value as text and a controller writes it.  A report counts
only if it fits the format and the bounds.  A write is not checked against
them, but only a writable characteristic takes one.
-/
namespace HomeSync

/-- What a controller write sets off. -/
inductive WriteHook where
  | forward (feature : Feature)
  | note (name : String)
  deriving DecidableEq

structure Characteristic where
  id : Nat := 0
  typeCode : String
  format : Format
  min : Option Binary64 := none
  max : Option Binary64 := none
  step : Option Binary64 := none
  writable : Bool := false
  value : Value := format.initial
  onWrite : Option WriteHook := none
  /-- Whether somebody outside the accessory holds the characteristic.  As long
  as that is so it is given no id. -/
  held : Bool := false
  deriving DecidableEq

namespace Characteristic

/-- Whether a value lies within the bounds.  Values that are no numbers have
none. -/
def inBounds (c : Characteristic) (v : Value) : Bool :=
  match v.toNumber? with
  | none => true
  | some x => c.min.all (Binary64.le · x) && c.max.all (Binary64.le x ·)

def reported? (c : Characteristic) (raw : String) : Option Value :=
  (Value.parse c.format raw).filter c.inBounds

def report (c : Characteristic) (raw : String) : Characteristic :=
  match c.reported? raw with
  | some v => { c with value := v }
  | none => c

def write? (c : Characteristic) (v : Value) : Option Characteristic :=
  if c.writable then some { c with value := v } else none

def numbered (c : Characteristic) (id : Nat) : Characteristic :=
  if c.held then c else { c with id }

/-- Whether two bounds are absent or numerically equal. -/
def sameBound : Option Binary64 → Option Binary64 → Bool
  | none, none => true
  | some a, some b => Binary64.same a b
  | _, _ => false

/-- Whether two characteristics agree in everything but their values and what a
write sets off. -/
def sameStructure (a b : Characteristic) : Bool :=
  a.id == b.id && a.typeCode == b.typeCode && a.format == b.format
    && sameBound a.min b.min && sameBound a.max b.max && sameBound a.step b.step
    && a.writable == b.writable

end Characteristic
end HomeSync
