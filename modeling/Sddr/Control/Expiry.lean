import Sddr.Control.EbNHystPolicy
import Sddr.Lib.Runs

/-!
# Expiry when the clock is set back

`getTimeMS()` reads `CLOCK_REALTIME`, so a reading can be less than an earlier one, and `checkExpired` subtracts without
a sign.
-/

namespace Sddr.Control
open Sddr.Lib Sddr.Device

namespace EbNHystPolicy

/-- The limit for a state. -/
def limit (p : EbNHystPolicy) : HystState → Time
  | .Discovered => p.maxStartTime
  | .Encountered => p.endTime

/-- The policy takes every call. -/
def accept (p : EbNHystPolicy) (call : TimedCall) : Option EbNHystPolicy := some (p.step call)

/-- An id that is returned was last seen longer ago than its limit. -/
def ExpiresInTime (p : EbNHystPolicy) (call : TimedCall) : Prop :=
  match call.1 with
  | .discovered _ _ => True
  | .encountered _ => True
  | .checkExpired => ∀ id last, (id, last) ∈ (p.checkExpired call.2).1 →
      ∃ info, p.deviceInfo.lookup id = some info ∧ info.lastTime = last ∧
        last.toNat + (p.limit info.state).toNat < call.2.toNat

/-- No tracked id was last seen after the reading, except where `2 ^ 64` minus the step back is within its limit. -/
def ReadsForward (p : EbNHystPolicy) (call : TimedCall) : Prop :=
  match call.1 with
  | .discovered _ _ => True
  | .encountered _ => True
  | .checkExpired => ∀ id info, p.deviceInfo.lookup id = some info →
      info.lastTime ≤ call.2 ∨ 2 ^ 64 - (info.lastTime.toNat - call.2.toNat) ≤ (p.limit info.state).toNat

end EbNHystPolicy

end Sddr.Control
