import Sddr.Device.Reports
import Sddr.Radio.Broadcast

/-!
# Keys that were current in an epoch

A radio and one of its devices, where every receiver epoch remembers the local keys that were current while it was the
last one, and removed epochs are kept aside. The code has no such record; what it does is the same without it.
-/

namespace Sddr.Radio.EbNRadioBT4
open Sddr.Lib Sddr.Codec Sddr.Device Sddr.Erasure BT4

variable {P : Type} [FloatOps P] {ec : Ec} (sha256 : List Byte → Digest) (g : Galois)

structure Tracked (P : Type) (ec : Ec) where
  epoch : Epoch P ec
  keys : List (ECDH ec)

structure Track (P : Type) (ec : Ec) where
  radio : EbNRadioBT4 P ec
  device : EbNDevice P
  epochs : List (Tracked P ec)
  past : List (Tracked P ec)

/-- The device as the code has it. -/
def Track.target (t : Track P ec) : EbNDeviceBT4 P ec := { t.device with epochs := t.epochs.map Tracked.epoch }

inductive TrackEvent (P : Type) (ec : Ec) where
  | advert (time : Time) (data : Mem)
  | changeEpoch (key : ec.Key) (randomAddress : Address)
  | operation (op : DeviceOp P)

/-! ## The code's steps -/

/-- The part of `changeEpoch` that concerns one device. -/
def changeEpochTarget (r : EbNRadioBT4 P ec) (device : EbNDeviceBT4 P ec) : EbNDeviceBT4 P ec :=
  if r.confirmScheme.type.hasPassive then r.changeEpochDevice device else device

def TrackEvent.run (s : EbNRadioBT4 P ec × EbNDeviceBT4 P ec) :
    TrackEvent P ec → EbNRadioBT4 P ec × EbNDeviceBT4 P ec
  | .advert time data => (s.1, receive sha256 g s.1 s.2 time data)
  | .changeEpoch key randomAddress =>
      let r := EbNRadioBT4.changeEpoch g s.1 key randomAddress
      (r, r.changeEpochTarget s.2)
  | .operation op => (s.1, { s.2 with toEbNDevice := op.apply sha256 s.2.toEbNDevice })

/-! ## The same steps with a record of the keys -/

/-- The loop of `processEpochs`: the epochs that stay, those that are removed, and the device. -/
def trackEpochsFrom (r : EbNRadioBT4 P ec) (kept : Nat) :
    List (Tracked P ec) → EbNDevice P → List (Tracked P ec) × List (Tracked P ec) × EbNDevice P
  | [], device => ([], [], device)
  | ⟨epoch, keys⟩ :: epochs, device =>
      let (epoch, device) := processEpoch sha256 g r epoch device
      if epochs ≠ [] ∧ (epoch.dhDecoder.isDecoded = true ∨ kept + epochs.length + 1 > 2) then
        let rest := trackEpochsFrom r kept epochs device
        (rest.1, ⟨epoch, keys⟩ :: rest.2.1, rest.2.2)
      else
        let rest := trackEpochsFrom r (kept + 1) epochs device
        (⟨epoch, keys⟩ :: rest.1, rest.2.1, rest.2.2)

/-- A new epoch starts with the key that is current, and the last epoch takes every new key. -/
def Track.step (t : Track P ec) : TrackEvent P ec → Track P ec
  | .advert time data =>
      let epochs := (t.radio.processAdvert t.target time data).2.epochs
      let keys := t.epochs.map Tracked.keys ++ [[t.radio.dhExchange]]
      let processed := trackEpochsFrom sha256 g t.radio 0 (List.zipWith Tracked.mk epochs keys) t.device
      { t with epochs := processed.1, past := t.past ++ processed.2.1, device := processed.2.2 }
  | .changeEpoch key randomAddress =>
      let radio := EbNRadioBT4.changeEpoch g t.radio key randomAddress
      let target := radio.changeEpochTarget t.target
      let keys := (t.epochs.map Tracked.keys).modifyLast (· ++ [radio.dhExchange])
      { t with radio, device := target.toEbNDevice, epochs := List.zipWith Tracked.mk target.epochs keys }
  | .operation op => { t with device := op.apply sha256 t.device }

/-! ## Complete secrets -/

/-- The device holds the secrets of the keys and the remote key `p`, if there is one with these coordinates. -/
def HoldsSecrets (device : EbNDevice P) (keys : List (ECDH ec)) (X : List Byte) (y : Bool) : Prop :=
  ∀ p, ec.point2oct p = (if y then 0x03 else 0x02) :: X → ∀ dhExchange ∈ keys, ∀ v,
    ec.computeKey p dhExchange.secret = some v → v ∈ device.sharedSecrets.map SharedSecret.value

def Tracked.Complete (device : EbNDevice P) (t : Tracked P ec) : Prop :=
  t.epoch.dhDecoder.isDecoded = true →
    HoldsSecrets device t.keys t.epoch.dhDecoder.data t.epoch.dhExchangeYCoord

/-- Active confirmation is off, or the secrets of the epochs that are now decoded are held already. -/
def TrackEvent.Fair (t : Track P ec) : TrackEvent P ec → Prop
  | .advert time data => t.radio.confirmScheme.type.hasActive = true →
      ∀ e ∈ (t.radio.processAdvert t.target time data).2.epochs, e.dhDecoder.isDecoded = false →
        ∀ X ∈ (e.dhDecoder.decode g).1, HoldsSecrets t.device e.dhExchanges X e.dhExchangeYCoord
  | _ => True

def FairTrack (t : Track P ec) : List (TrackEvent P ec) → Prop
  | [] => True
  | event :: events => event.Fair g t ∧ FairTrack (t.step sha256 g event) events

end Sddr.Radio.EbNRadioBT4
