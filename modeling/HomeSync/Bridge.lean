import HomeSync.Accessory.Inventory

/-
The bridge shows accessories to controllers.

Beside its own root accessory the bridge holds the numbers of the accessories in
the inventory that it shows, by accessory id, and it counts how often it was
asked to add, replace and remove one.
-/
namespace HomeSync

structure Bridge where
  root : Accessory
  /-- The number of the accessory shown under an id. -/
  shown : SortedMap Nat Nat := SortedMap.empty
  adds : Nat := 0
  replaces : Nat := 0
  removes : Nat := 0

namespace Bridge

def rootId : Nat := 1

/-- A bridge that shows nothing but its reachable root. -/
def create (info : Nameplate) : Bridge :=
  { root := (Accessory.create rootId info (Category.ofDeviceType "bridge")).setReachable true }

def add (b : Bridge) (id n : Nat) : Bridge :=
  { b with shown := b.shown.insert id n, adds := b.adds + 1 }

def replace (b : Bridge) (id n : Nat) : Bridge :=
  { b with shown := b.shown.insert id n, replaces := b.replaces + 1 }

def remove (b : Bridge) (id : Nat) : Bridge :=
  { b with shown := b.shown.erase id, removes := b.removes + 1 }

def find? (b : Bridge) (id : Nat) : Option Nat := b.shown.find? id

def ids (b : Bridge) : List Nat := b.shown.keys

end Bridge
end HomeSync
