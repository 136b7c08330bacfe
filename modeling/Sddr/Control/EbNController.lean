import Sddr.Control.EbNHystPolicy
import Sddr.Radio.Actions

/-!
# EbNController

`EbNController.h` and `EbNController.cpp`: the loop that lets the radio and the policy act, and reports what they find.
-/

namespace Sddr.Control
open Sddr.Lib Sddr.Codec Sddr.Device Sddr.Radio

structure EbNController (P D : Type) where
  radio : EbNRadio P D
  hystPolicy : EbNHystPolicy
  rssiReportInterval : Time

/-- What a `Discover` action meets: the responses, the connections that came in, what active handshakes do, and the
readings of the clock. -/
structure Meeting (sha256 : List Byte → Digest) (D : Type) {P : Type} [FloatOps P] [IsDevice D P] where
  responses : List (Response sha256 D)
  interval : Nat
  incoming : List (Incoming sha256 D)
  connect : DeviceID → Option (Effect sha256 D)
  discovered : Time
  encountered : Time
  report : Nat → Time × Time × Time
  checkExpired : Time
  done : Nat → Time × Time × Time

namespace EbNController

variable {P D : Type} [FloatOps P] [IsDevice D P] [Addressed D] [RadioDevice D]
  {sha256 : List Byte → Digest} (version : Version) (digest : List Byte → Nat)

/-- The loop over `discovered`: the events of the devices that have something new. -/
def reportAll (rssiReportInterval : Time) (clock : Nat → Time × Time × Time) :
    List DiscoverEvent → EbNRadio P D → Option (List (EncounterEvent P) × EbNRadio P D)
  | [], r => some ([], r)
  | discovery :: discovered, r =>
      let (time, now, later) := clock discovered.length
      (r.getDeviceEvent (EncounterEvent.ofTime time) discovery.id rssiReportInterval now later).bind
        fun (success, event, r) =>
          (reportAll rssiReportInterval clock discovered r).map fun (events, r) =>
            (if success then event :: events else events, r)

/-- The loop over `expired`. -/
def expireAll (clock : Nat → Time × Time × Time) :
    List (DeviceID × Time) → EbNRadio P D → Option (List (EncounterEvent P) × EbNRadio P D)
  | [], r => some ([], r)
  | (id, lastTime) :: expired, r =>
      let (time, now, later) := clock expired.length
      (r.doneWithDevice id time now later).bind fun (event, r) =>
        (expireAll clock expired r).map fun (events, r) => ({ event with time := lastTime } :: events, r)

/-- The action `Discover`, with the events passed to the callback. -/
def discover (c : EbNController P D) (m : Meeting sha256 D) : Option (List (EncounterEvent P) × EbNController P D) :=
  (c.radio.discover version digest m.responses m.interval).bind fun (discovered, r) =>
    let found := c.hystPolicy.discovered discovered [] m.discovered
    (r.handshake version digest m.incoming m.connect found.toHandshake).bind fun (encountered, r) =>
      let hystPolicy := found.policy.encountered encountered m.encountered
      let started := found.newlyDiscovered.map fun nd => EncounterEvent.new .UnconfirmedStarted nd.2 nd.1
      (reportAll c.rssiReportInterval m.report discovered r).bind fun (reports, r) =>
        let (expired, hystPolicy) := hystPolicy.checkExpired m.checkExpired
        (expireAll m.done expired r).map fun (ended, r) =>
          (started ++ reports ++ ended, { c with radio := r, hystPolicy })

end EbNController

/-! ## Runs -/

/-- An action, or a call of the application between two of them. A change of epoch comes with what it does to the
devices. -/
inductive Action (sha256 : List Byte → Digest) (D : Type) {P : Type} [FloatOps P] [IsDevice D P] where
  | discover (m : Meeting sha256 D)
  | changeEpoch (effect : Effect sha256 D)
  | setAdvertisedSet (advertisedSet : List LinkValue)
  | setListenSet (listenSet : List LinkValue)

namespace EbNController

variable {P D : Type} [FloatOps P] [IsDevice D P] [Addressed D] [RadioDevice D]
  {sha256 : List Byte → Digest} (version : Version) (digest : List Byte → Nat)

def act (c : EbNController P D) : Action sha256 D → Option (List (EncounterEvent P) × EbNController P D)
  | .discover m => c.discover version digest m
  | .changeEpoch effect => some ([], { c with radio := c.radio.changeEpoch effect })
  | .setAdvertisedSet advertisedSet => some ([], { c with radio := c.radio.setAdvertisedSet advertisedSet })
  | .setListenSet listenSet => some ([], { c with radio := c.radio.setListenSet listenSet })

/-- Actions one after the other, with all events passed to the callback. -/
def run : List (Action sha256 D) → EbNController P D → Option (List (EncounterEvent P) × EbNController P D)
  | [], c => some ([], c)
  | action :: actions, c =>
      (c.act version digest action).bind fun (events, c) =>
        (run actions c).map fun (rest, c) => (events ++ rest, c)

end EbNController

end Sddr.Control
