import Mathlib.Data.Finset.Sort
import Sddr.Device.Reports
import Sddr.Radio.EbNRadio

/-!
# What radios do with their devices

`recentDevices_`, and the parts of `discover`, `handshake`, `changeEpoch` and `doneWithDevice` that are the same in all
radios. They differ in what an advert or a handshake does to a device. Following a pointer to nothing has no result.
-/

namespace Sddr.Radio
open Sddr.Lib Sddr.Codec Sddr.Device

/-- A subclass of `EbNDevice` that the device map can hold. `EbNDeviceBT4AR` changes its matching set when it gets an
address. -/
class RadioDevice (D : Type) {P : outParam Type} [FloatOps P] [IsDevice D P] [Addressed D] where
  create : DeviceID → Address → List LinkValue → D
  base_create : ∀ id address listenSet, ∃ matching updatedMatching matchingPFalse,
    IsDevice.base (create id address listenSet)
      = { EbNDevice.new id address listenSet with matching, updatedMatching, matchingPFalse }
  base_update : ∀ (f : EbNDevice P → EbNDevice P) (d : D), IsDevice.base (IsDevice.update f d) = f (IsDevice.base d)
  getID : ∀ d : D, Addressed.getID d = (IsDevice.base d).id
  getAddress : ∀ d : D, Addressed.getAddress d = (IsDevice.base d).address
  base_setAddress : ∀ (d : D) (address : Address), ∃ matching updatedMatching matchingPFalse,
    IsDevice.base (Addressed.setAddress d address)
      = { IsDevice.base d with address, matching, updatedMatching, matchingPFalse }

/-- What adverts and handshakes do to a device: they call its operations. -/
structure Effect (sha256 : List Byte → Digest) (D : Type) {P : Type} [FloatOps P] [IsDevice D P] where
  run : D → D
  changed : ∀ d, Changed sha256 (IsDevice.base d) (IsDevice.base (run d))

/-- A response of an EbN device, with what its advert does to the device. -/
structure Response (sha256 : List Byte → Digest) (D : Type) {P : Type} [FloatOps P] [IsDevice D P] where
  address : Address
  time : Time
  rssi : BitVec 8
  buckets : Buckets
  effect : Effect sha256 D

/-- An element of `listenAdverts_`, with what its message does to the device. -/
structure Incoming (sha256 : List Byte → Digest) (D : Type) {P : Type} [FloatOps P] [IsDevice D P] where
  address : Address
  buckets : Buckets
  effect : Effect sha256 D

/-- `EbNRadio::Version_::Type`. -/
inductive Version where
  | Bluetooth2
  | Bluetooth2NR
  | Bluetooth2PSI
  | Bluetooth4
  | Bluetooth4AR
  deriving DecidableEq, Repr

namespace Version

/-- Whether `discover()` calls `addRSSIMeasurement`. -/
def measures : Version → Bool
  | Bluetooth2 => true
  | Bluetooth2NR => false
  | Bluetooth2PSI => true
  | Bluetooth4 => true
  | Bluetooth4AR => false

/-- Whether `handshake` connects to a device. For `Bluetooth2` that is still to be written. -/
def connects (version : Version) (confirmed : Bool) (scheme : ConfirmType) : Bool :=
  match version with
  | Bluetooth2 => false
  | Bluetooth2NR => true
  | Bluetooth2PSI => !confirmed && scheme == .Active
  | Bluetooth4 => !confirmed && scheme == .Active
  | Bluetooth4AR => false

end Version

namespace EbNRadio

variable {P D : Type} [FloatOps P] [IsDevice D P] [Addressed D] {sha256 : List Byte → Digest} (version : Version)
  (digest : List Byte → Nat) (r : EbNRadio P D)

def devices : Devices D := ⟨r.deviceMap, r.heap⟩

def setDevices (s : Devices D) : EbNRadio P D := { r with deviceMap := s.map, heap := s.heap }

/-- The device at a pointer is changed. -/
def update (device : DeviceID) (f : D → D) : EbNRadio P D :=
  { r with heap := Function.update r.heap device ((r.heap device).map f) }

/-! ## Recent devices -/

def removeRecentDevice (id : DeviceID) : EbNRadio P D :=
  match r.recent.index.lookup id with
  | some node =>
      { r with
        recent := { r.recent with
          nodes := r.recent.nodes.filter fun entry => entry.1 ≠ node
          index := r.recent.index.erase id } }
  | none => r

def addRecentDevice (device : DeviceID) : Option (EbNRadio P D) :=
  (r.heap device).map fun d =>
    let r := r.removeRecentDevice (Addressed.getID d)
    { r with
      recent :=
        { nodes := (r.recent.nextNode, device) :: r.recent.nodes
          index := UMap.insertNew r.recent.index (Addressed.getID d) r.recent.nextNode
          nextNode := r.recent.nextNode + 1 } }

/-! ## Discovery -/

section
variable [RadioDevice D]

/-- `deviceMap_.get(address)`, or a new device if that is `NULL`. -/
def deviceAt (buckets : Buckets) (address : Address) : Option (DeviceID × EbNRadio P D) :=
  match r.devices.getAddress digest buckets address with
  | (some device, s) => some (device, r.setDevices s)
  | (none, s) =>
      let id := r.nextDeviceID
      let r := { r.setDevices s with nextDeviceID := id + 1 }
      ((r.devices.allocate id (RadioDevice.create id address r.listenSet)).add address id).map fun s =>
        (id, r.setDevices s)

/-- `processEIRResponse`, `processScanResponse`, and the body of the loop in `discover()` of `Bluetooth2NR`. -/
def respond (response : Response sha256 D) : Option (DiscoverEvent × EbNRadio P D) :=
  (r.deviceAt digest response.buckets response.address).bind fun (device, r) =>
    (r.heap device).bind fun d =>
      let r :=
        if version.measures then
          r.update device (IsDevice.update fun d => d.addRSSIMeasurement response.time response.rssi)
        else r
      (r.addRecentDevice device).map fun r =>
        (⟨response.time, Addressed.getID d, response.rssi⟩, r.update device response.effect.run)

def respondAll : List (Response sha256 D) → EbNRadio P D → Option (List DiscoverEvent × EbNRadio P D)
  | [], r => some ([], r)
  | response :: responses, r =>
      (r.respond version digest response).bind fun (event, r) =>
        (respondAll responses r).map fun (events, r) => (event :: events, r)

/-- `discover()`; `interval` is the time to the next one. -/
def discover (responses : List (Response sha256 D)) (interval : Nat) : Option (List DiscoverEvent × EbNRadio P D) :=
  (respondAll version digest responses r.forget).map fun (events, r) =>
    (events, { r with nextDiscover := Time.addMS r.nextDiscover interval })

end

/-! ## Handshakes -/

def getHandshakeScheme : ConfirmType :=
  if r.confirmScheme.type = .Hybrid then if r.recent.nodes.length > 128 then .Passive else .Active
  else r.confirmScheme.type

section
variable [RadioDevice D]

/-- The body of the loop over `listenAdverts_`. -/
def receive (incoming : Incoming sha256 D) : Option (EbNRadio P D) :=
  (r.deviceAt digest incoming.buckets incoming.address).bind fun (device, r) =>
    (r.addRecentDevice device).map fun r =>
      r.update device fun d => IsDevice.update (·.setShakenHands true) (incoming.effect.run d)

def receiveAll : List (Incoming sha256 D) → EbNRadio P D → Option (EbNRadio P D)
  | [], r => some r
  | incoming :: rest, r => (r.receive digest incoming).bind (receiveAll rest)

/-- The devices that the messages are from. -/
def recipients : List (Incoming sha256 D) → EbNRadio P D → List DeviceID
  | [], _ => []
  | incoming :: rest, r =>
      match r.deviceAt digest incoming.buckets incoming.address, r.receive digest incoming with
      | some (device, _), some r => device :: recipients rest r
      | _, _ => []

end

/-- The loop over the selected devices. `connect` is what a connection does, or `none` where the loop is left: there is
not enough time for one, or there already was one. -/
def shakeHands (connect : DeviceID → Option (Effect sha256 D)) : List DeviceID → EbNRadio P D → Option (EbNRadio P D)
  | [], r => some r
  | id :: ids, r =>
      (r.devices.getID id).bind fun device =>
        (r.heap device).bind fun d =>
          if version.connects (IsDevice.base d).confirmed r.getHandshakeScheme then
            match connect id with
            | none => some r
            | some effect =>
                shakeHands connect ids (r.update device fun d => IsDevice.update (·.setShakenHands true) (effect.run d))
          else shakeHands connect ids (r.update device (IsDevice.update (·.setShakenHands true)))

/-- The devices we have shaken hands with and confirmed. -/
def encountered : Finset DeviceID :=
  (r.deviceMap.idToDevice.entries.filterMap fun entry =>
    (r.heap entry.2).bind fun d =>
      if (IsDevice.base d).shakenHands ∧ (IsDevice.base d).confirmed then some (Addressed.getID d) else none).toFinset

/-- Only `Bluetooth4` has `listenAdverts_`, and `Bluetooth4AR` shakes no hands. -/
def handshake [RadioDevice D] (incoming : List (Incoming sha256 D)) (connect : DeviceID → Option (Effect sha256 D))
    (deviceIDs : Finset DeviceID) : Option (Finset DeviceID × EbNRadio P D) :=
  (receiveAll digest (if version = .Bluetooth4 then incoming else []) r).bind fun r =>
    (shakeHands version connect (if version = .Bluetooth4AR then [] else deviceIDs.sort (· ≤ ·)) r).map fun r =>
      (r.encountered, r)

/-! ## Other actions -/

/-- `getDeviceEvent(event, id, rssiReportInterval)`, with the readings of the clock it makes. -/
def getDeviceEvent (event : EncounterEvent P) (id : DeviceID) (rssiReportInterval now later : Time) :
    Option (Bool × EncounterEvent P × EbNRadio P D) :=
  match r.recent.index.lookup id with
  | none => some (false, event, r)
  | some node =>
      (r.recent.nodes.find? fun entry => entry.1 = node).bind fun entry =>
        (r.heap entry.2).map fun d =>
          let report := (IsDevice.base d).getEncounterInfo event rssiReportInterval false now later
          (report.1, report.2.1, r.update entry.2 (IsDevice.update fun _ => report.2.2))

/-- `doneWithDevice(id)`; the clock reads `time` at its first call. -/
def doneWithDevice (id : DeviceID) (time now later : Time) : Option (EncounterEvent P × EbNRadio P D) :=
  (r.devices.getID id).bind fun device =>
    (r.heap device).bind fun d =>
      let report := (IsDevice.base d).getEncounterInfoDefault (EncounterEvent.ofTime time) true now later
      let r := r.update device (IsDevice.update fun _ => report.2.2)
      (r.devices.removeID id).map fun removed => (report.2.1, (r.setDevices removed.2).removeRecentDevice id)

/-- What `changeEpoch()` does to the devices, if it does anything. -/
def changeEpoch (effect : Effect sha256 D) : EbNRadio P D :=
  { r with
    heap := fun device => if device ∈ r.deviceMap.idToDevice then (r.heap device).map effect.run else r.heap device
    nextChangeEpoch := Time.addMS r.nextChangeEpoch EPOCH_INTERVAL }

end EbNRadio

end Sddr.Radio
