import HomeSync.Accessory.Basic

/-
All accessories that were ever built.

An accessory keeps its number for good.  The bridge, the adapter and the
subscriptions name accessories by number, so they all see the changes of its
values, and a rebuilt accessory is a different one even if it looks the same.
-/
namespace HomeSync

structure Inventory where
  accessories : List Accessory := []

namespace Inventory

/-- The number that the next accessory will get. -/
def next (inv : Inventory) : Nat := inv.accessories.length

def add (inv : Inventory) (a : Accessory) : Inventory := ⟨inv.accessories ++ [a]⟩

def get? (inv : Inventory) (n : Nat) : Option Accessory := inv.accessories[n]?

def modify (inv : Inventory) (n : Nat) (f : Accessory → Accessory) : Inventory :=
  ⟨inv.accessories.modify n f⟩

def report (inv : Inventory) (n : Nat) (typeCode raw : String) : Inventory :=
  inv.modify n fun a => a.modifyType typeCode fun c => c.report raw

end Inventory
end HomeSync
