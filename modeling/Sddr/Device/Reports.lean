import Sddr.Device.EbNDevice

/-!
# Runs of a device

The operations other code performs on a device, in any order, together with the events its reports deliver.
-/

namespace Sddr.Device
open Sddr.Lib Sddr.Codec

variable {P : Type} [FloatOps P] (sha256 : List Byte → Digest)

/-- One call that changes a device without reporting on it. -/
inductive DeviceOp (P : Type) where
  | addSharedSecret (secret : SharedSecret P)
  | confirmPassive (bloom : BloomFilter P) (pre : List Byte) (threshold : P)
  | confirmPassiveDelta (bloom : BloomFilter P) (pre : List Byte) (threshold pFalseDelta : P)
  | updateMatching (bloom : BloomFilter P) (pre : List Byte)
  | updateMatchingDelta (bloom : BloomFilter P) (pre : List Byte) (pFalseDelta : P)
  | addRSSIMeasurement (time : Time) (rssi : BitVec 8)
  | setShakenHands (value : Bool)

def DeviceOp.apply (d : EbNDevice P) : DeviceOp P → EbNDevice P
  | .addSharedSecret secret => d.addSharedSecret secret
  | .confirmPassive bloom pre threshold => d.confirmPassive sha256 bloom pre threshold
  | .confirmPassiveDelta bloom pre threshold pFalseDelta =>
      d.confirmPassiveDelta sha256 bloom pre threshold pFalseDelta
  | .updateMatching bloom pre => d.updateMatching sha256 bloom pre
  | .updateMatchingDelta bloom pre pFalseDelta => d.updateMatchingDelta sha256 bloom pre pFalseDelta
  | .addRSSIMeasurement time rssi => d.addRSSIMeasurement time rssi
  | .setShakenHands value => d.setShakenHands value

/-- Calls can turn one device into the other. -/
def Changed (d d' : EbNDevice P) : Prop := ∃ ops : List (DeviceOp P), ops.foldl (DeviceOp.apply sha256) d = d'

/-- One call on a device: a change, or a report at time `time` with the two readings of the clock it makes. -/
inductive ReportOp (P : Type) where
  | change (op : DeviceOp P)
  | getEncounterInfo (time rssiReportingInterval now later : Time)

/-- A device and the events of the successful reports so far, oldest first. -/
structure Reports (P : Type) where
  device : EbNDevice P
  events : List (EncounterEvent P)

namespace Reports

def step (r : Reports P) : ReportOp P → Reports P
  | .change op => { r with device := op.apply sha256 r.device }
  | .getEncounterInfo time rssiReportingInterval now later =>
      let report := r.device.getEncounterInfo (EncounterEvent.ofTime time) rssiReportingInterval false now later
      ⟨report.2.2, if report.1 then r.events ++ [report.2.1] else r.events⟩

/-- A run on a freshly constructed device. -/
def run (id : DeviceID) (address : Address) (listenSet : List LinkValue) (ops : List (ReportOp P)) : Reports P :=
  ops.foldl (step sha256) ⟨EbNDevice.new id address listenSet, []⟩

/-! ## What a client sees -/

/-- The shared secrets delivered so far, followed by those still to be reported. -/
def reportedSecrets (r : Reports P) : List (SharedSecret P) :=
  r.events.flatMap EncounterEvent.sharedSecrets ++ r.device.secretsToReport

/-- The measurements delivered so far, followed by those still to be reported. -/
def reportedRSSI (r : Reports P) : List RSSIEvent :=
  r.events.flatMap EncounterEvent.rssiEvents ++ r.device.rssiToReport

/-- The copy of a client that starts from the listen set and takes over every updated matching set. -/
def clientMatching (listenSet : List LinkValue) (r : Reports P) : List LinkValue :=
  r.events.foldl (fun copy e => if e.matchingSetUpdated then e.matching else copy) listenSet

end Reports

/-- The measurement a call adds. -/
def ReportOp.measurement : ReportOp P → List RSSIEvent
  | .change (.addRSSIMeasurement time rssi) => [⟨time, rssi⟩]
  | _ => []

/-- The values of the confirmed secrets of a list. -/
def confirmedValues (secrets : List (SharedSecret P)) : List LinkValue :=
  (secrets.filter SharedSecret.confirmed).map SharedSecret.value

end Sddr.Device
