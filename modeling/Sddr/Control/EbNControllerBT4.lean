import Sddr.Control.EbNController
import Sddr.Radio.Devices

/-!
# EbNController with EbNRadioBT4

The responses of a scan, the connections that the listener thread accepts, and the messages of active handshakes, as the
radio handles them in the actions of the controller.
-/

namespace Sddr.Radio
open Sddr.Lib Sddr.Codec Sddr.Device Sddr.Erasure BT4

variable {P : Type} [FloatOps P] {ec : Ec}

/-- `ScanResponse`; `data` has its `length`. -/
structure ScanResponse where
  address : Address
  time : Time
  rssi : BitVec 8
  data : List Byte
  buckets : Buckets

/-- `addressOK && lengthOK` of `processScanResponse`. -/
def ScanResponse.isEbN (response : ScanResponse) : Bool :=
  response.address.verifyChecksum && decide (response.data.length = 31)

namespace EbNRadioBT4

/-- One round of `listen`, for a client that sends `message` and takes the answer. The thread runs if `type & Active`. -/
def listen (r : EbNRadioBT4 P ec) (address : Address) (message : List Byte) : EbNRadioBT4 P ec :=
  let messageSize := r.dhExchange.getPublicSize + (ACTIVE_BF_M + 7) / 8
  if r.confirmScheme.type.hasActive && address.verifyChecksum && decide (message.length = messageSize)
      && message.any (· ≠ 0) then
    { r with listenAdverts := r.listenAdverts ++ [(address, message)] }
  else r

/-- What the answer of a device that was connected to does to it; there may be none, and one of zeros is ignored. -/
def connectEffect (sha256 : List Byte → Digest) (r : EbNRadioBT4 P ec) :
    Option (List Byte) → Effect sha256 (EbNDeviceBT4 P ec)
  | some remoteMessage => if remoteMessage.any (· ≠ 0) then messageEffect r remoteMessage else ⟨fun d => d, fun _ => .refl _⟩
  | none => ⟨fun d => d, fun _ => .refl _⟩

end EbNRadioBT4

end Sddr.Radio

namespace Sddr.Control
open Sddr.Lib Sddr.Codec Sddr.Device Sddr.Radio Sddr.Erasure

structure EbNControllerBT4 (P : Type) (ec : Ec) where
  radio : EbNRadioBT4 P ec
  hystPolicy : EbNHystPolicy
  rssiReportInterval : Time

/-- What a `Discover` action meets: the responses, the answers to connections, and the readings of the clock. `connect`
is `none` where there is not enough time for a connection. -/
structure MeetingBT4 where
  rand : Nat → Nat
  scanRand : Nat → Nat
  responses : List ScanResponse
  interval : Nat
  buckets : Nat → Buckets
  connect : DeviceID → Option (Option (List Byte))
  discovered : Time
  encountered : Time
  report : Nat → Time × Time × Time
  checkExpired : Time
  done : Nat → Time × Time × Time

inductive ActionBT4 (ec : Ec) where
  | listen (address : Address) (message : List Byte)
  | discover (m : MeetingBT4)
  | changeEpoch (key : ec.Key) (randomAddress : Address)
  | setAdvertisedSet (advertisedSet : List LinkValue)
  | setListenSet (listenSet : List LinkValue)

namespace EbNControllerBT4

variable {P : Type} [FloatOps P] {ec : Ec} (sha256 : List Byte → Digest) (g : Galois) (digest : List Byte → Nat)

/-- The controller as all radios have it. -/
def base (c : EbNControllerBT4 P ec) : EbNController P (EbNDeviceBT4 P ec) :=
  ⟨c.radio.toEbNRadio, c.hystPolicy, c.rssiReportInterval⟩

/-- The radio once it has changed its advert, in `discover()`. -/
def scanner (c : EbNControllerBT4 P ec) (m : MeetingBT4) : EbNRadioBT4 P ec :=
  c.radio.discover sha256 m.rand m.scanRand

/-- `processScanResponse` for the responses of EbN devices, and `processActiveHandshake` for `listenAdverts_`. -/
def meeting (c : EbNControllerBT4 P ec) (m : MeetingBT4) : Meeting sha256 (EbNDeviceBT4 P ec) :=
  let r := c.scanner sha256 m
  { responses := (m.responses.filter ScanResponse.isEbN).map fun response =>
      ⟨response.address, response.time, response.rssi, response.buckets,
        EbNRadioBT4.advertEffect g r response.time (Mem.ofList response.data)⟩
    interval := m.interval
    incoming := c.radio.listenAdverts.mapIdx fun i queued => ⟨queued.1, m.buckets i, EbNRadioBT4.messageEffect r queued.2⟩
    connect := fun id => (m.connect id).map (EbNRadioBT4.connectEffect sha256 r)
    discovered := m.discovered, encountered := m.encountered, report := m.report
    checkExpired := m.checkExpired, done := m.done }

def discover (c : EbNControllerBT4 P ec) (m : MeetingBT4) : Option (List (EncounterEvent P) × EbNControllerBT4 P ec) :=
  (c.base.discover .Bluetooth4 digest (c.meeting sha256 g m)).map fun (events, base) =>
    (events,
      { radio := { c.scanner sha256 m with toEbNRadio := base.radio, listenAdverts := [] }
        hystPolicy := base.hystPolicy, rssiReportInterval := base.rssiReportInterval })

def act (c : EbNControllerBT4 P ec) : ActionBT4 ec → Option (List (EncounterEvent P) × EbNControllerBT4 P ec)
  | .listen address message => some ([], { c with radio := c.radio.listen address message })
  | .discover m => c.discover sha256 g digest m
  | .changeEpoch key randomAddress => some ([], { c with radio := c.radio.changeEpoch g key randomAddress })
  | .setAdvertisedSet advertisedSet =>
      some ([], { c with radio := { c.radio with toEbNRadio := c.radio.setAdvertisedSet advertisedSet } })
  | .setListenSet listenSet =>
      some ([], { c with radio := { c.radio with toEbNRadio := c.radio.setListenSet listenSet } })

/-- Actions and connections one after the other, with all events passed to the callback. -/
def run : List (ActionBT4 ec) → EbNControllerBT4 P ec → Option (List (EncounterEvent P) × EbNControllerBT4 P ec)
  | [], c => some ([], c)
  | action :: actions, c =>
      (c.act sha256 g digest action).bind fun (events, c) =>
        (run actions c).map fun (rest, c) => (events ++ rest, c)

end EbNControllerBT4

end Sddr.Control
