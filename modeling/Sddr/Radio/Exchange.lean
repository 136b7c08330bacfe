import Sddr.Radio.BT2

/-!
# Two BT2 radios

Each radio tracks the other as one of its devices. They change their epochs and hear each other's adverts in any order.
-/

namespace Sddr.Radio.EbNRadioBT2
open Sddr.Lib Sddr.Codec Sddr.Device BT2

variable {P : Type} [FloatOps P] {ec : Ec} (sha256 : List Byte → Digest)

/-- `processAdvert` and `processEpochs` for the response of a device at its current address. -/
def receive (r : EbNRadioBT2 P ec) (device : EbNDeviceBT2 P) (address : Address) (time : Time) (data : Mem) :
    EbNDeviceBT2 P :=
  processEpochs (processAdvert sha256 r { device with toEbNDevice := device.setAddress address } time data true).2

/-- A radio, the id of the device that is the other radio, and whether it has heard an advert of the epoch the other
radio is in. -/
structure Party (P : Type) (ec : Ec) where
  radio : EbNRadioBT2 P ec
  peer : DeviceID
  heard : Bool

inductive PartyEvent (ec : Ec) where
  | changeEpoch (key : ec.Key) (rand : Nat → Nat) (random : Nat → Byte) (next : DeviceID → Byte)
  | hear (advertNum : Nat) (time : Time) (rand : Nat → Nat)

/-- What the event does to the party it happens at, and to the other one. -/
def PartyEvent.apply (self other : Party P ec) : PartyEvent ec → Party P ec × Party P ec
  | .changeEpoch key rand random next =>
      ({ self with radio := EbNRadioBT2.changeEpoch sha256 rand next self.radio key random }, { other with heard := false })
  | .hear advertNum time rand =>
      let data := Mem.ofList (generateAdvert sha256 rand other.radio advertNum).toBytes
      let heap := fun id =>
        if id = self.peer then
          (self.radio.heap id).map fun device => receive sha256 self.radio device other.radio.publicAddress time data
        else self.radio.heap id
      ({ self with radio := { self.radio with heap := heap }, heard := true }, other)

/-- An event at the first party, or at the second. -/
def exchange (s : Party P ec × Party P ec) (event : Bool × PartyEvent ec) : Party P ec × Party P ec :=
  if event.1 then event.2.apply sha256 s.1 s.2 else (event.2.apply sha256 s.2 s.1).swap

/-! ## What the secrets depend on -/

/-- The secret `v` is held already, or the bytes that `changeEpoch` reads as a remote key happen to encode a point
with the same secret. -/
def ReadsSecret (device : EbNDeviceBT2 P) (next : Byte) (key : ec.Key) (v : LinkValue) : Prop :=
  v ∈ device.sharedSecrets.map SharedSecret.value ∨
    ∃ curEpoch q, device.epochs.getLast? = some curEpoch ∧
      ec.oct2point (curEpoch.dhRemotePublic ++ [next]) = some q ∧ ec.computeKey q key = some v

/-- Every epoch change reads the secret of the two current keys, and the first advert that is heard of an epoch of
the other radio opens a new epoch. -/
def PartyEvent.Fair (self other : Party P ec) : PartyEvent ec → Prop
  | .changeEpoch key _ _ next => self.heard = true → ∀ device, self.radio.heap self.peer = some device →
      ∀ v, ec.computeKey (ec.publicKey other.radio.dhExchange.secret) key = some v →
        ReadsSecret device (next self.peer) key v
  | .hear advertNum time _ => advertNum < ADV_N ∧ (self.heard = false →
      ∀ device, self.radio.heap self.peer = some device → classify device.epochs advertNum time = .isNew)

/-- All events of a run are fair. -/
def FairRun (s : Party P ec × Party P ec) : List (Bool × PartyEvent ec) → Prop
  | [] => True
  | event :: events =>
      (if event.1 then event.2.Fair s.1 s.2 else event.2.Fair s.2 s.1) ∧ FairRun (exchange sha256 s event) events

/-- A radio whose address carries the Y coordinate of its key, and that tracks the other one. -/
structure Party.Ready (p : Party P ec) : Prop where
  key : p.radio.dhExchange = ECDH.generateSecret p.radio.dhExchange.secret
  length : p.radio.publicAddress.length = 6
  yCoord : Address.yCoord p.radio.publicAddress = p.radio.dhExchange.getPublicY
  scheme : p.radio.confirmScheme.type.hasPassive = true
  peer : p.peer ∈ p.radio.deviceMap.idToDevice
  device : ∃ device, p.radio.heap p.peer = some device

/-- If it has heard the current epoch of the other one, it has stored that key and holds the secret of both keys. -/
def Party.Knows (self other : Party P ec) : Prop :=
  self.heard = true → ∃ device curEpoch, self.radio.heap self.peer = some device ∧
    device.epochs.getLast? = some curEpoch ∧
    curEpoch.dhRemotePublic = other.radio.dhExchange.getPublicX.take (ec.keySize / 8) ∧
    ∀ v, ec.computeKey (ec.publicKey other.radio.dhExchange.secret) self.radio.dhExchange.secret = some v →
      v ∈ device.sharedSecrets.map SharedSecret.value

/-- Both hold the secret of their current keys. -/
def HoldSecret (a b : Party P ec) : Prop :=
  ∃ v, ec.computeKey (ec.publicKey b.radio.dhExchange.secret) a.radio.dhExchange.secret = some v ∧
    ∀ p ∈ [a, b], ∃ device, p.radio.heap p.peer = some device ∧ v ∈ device.sharedSecrets.map SharedSecret.value

end Sddr.Radio.EbNRadioBT2
