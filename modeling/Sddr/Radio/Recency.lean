import Sddr.Lib.MoveToFront
import Sddr.Lib.Runs
import Sddr.Radio.Actions

/-!
# The recent devices over many calls

Calls of `addRecentDevice` and `removeRecentDevice` as touches of a list of devices whose keys are their ids.
-/

namespace Sddr.Radio
open Sddr.Lib Sddr.Device

namespace EbNRadio

variable {P D : Type} [Addressed D]

/-- `device->getID()`. -/
def idOf (r : EbNRadio P D) (device : DeviceID) : DeviceID := ((r.heap device).map Addressed.getID).getD 0

/-- `addRecentDevice(device)` or `removeRecentDevice(id)`. -/
def touchRecent (r : EbNRadio P D) : Touch DeviceID DeviceID → Option (EbNRadio P D)
  | .add device => r.addRecentDevice device
  | .remove id => some (r.removeRecentDevice id)

/-- As in a new radio. -/
def withoutRecent (r : EbNRadio P D) : EbNRadio P D := { r with recent := ⟨[], ∅, 0⟩ }

end EbNRadio

end Sddr.Radio
