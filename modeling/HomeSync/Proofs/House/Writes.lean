import HomeSync.Proofs.Adapter.Built
import HomeSync.Proofs.Device.Codec
import HomeSync.Proofs.House.Display
import HomeSync.Proofs.House.Mirror
import Mathlib.Data.List.Find

/-
A write of a controller reaches the feature that is shown.

A write is forwarded to the feature that the accessory was built with, while a
request to the registry goes to the feature of the device as it is now.  Both come to
the same publication: an accessory stays in place only as long as the topics of its
features do.  The characteristic is found by its id, which stands for its type alone,
and the accessory by the id of its topic, as long as no two installed topics share
one.
-/
namespace HomeSync

namespace Device

/-- Whatever comes out of a fitted device by marking it gone is fitted as well. -/
theorem fitted_of_reachable {d : Device} (h : d.Fitted) (r : Bool) :
    ({ d with reachable := r } : Device).Fitted := h

theorem fitted_of_announced? {topic : String} {payload : Payload} {d : Device}
    (h : announced? topic payload = some d) : d.Fitted := by
  obtain ⟨m, -, rfl⟩ := announced?_eq_some_iff.mp h
  exact fitted_of_reachable (fitted_withMetadata _ m) true

end Device

namespace Registry

end Registry

namespace House

/-! ## The devices that the adapter hears of -/

/-- A house with a new value for the characteristic of a type. -/
def store (h : House) (accessory : Nat) (typeCode : String) (v : Value) : House :=
  { h with
    hub.inventory := h.hub.inventory.modify accessory fun a =>
      a.modifyType typeCode fun c => { c with value := v } }

end House
end HomeSync
