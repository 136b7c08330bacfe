import Sddr.Radio.Broadcast
import Sddr.Radio.Exchange

/-!
# When the adverts of a sender are heard

A sender starts an epoch every `EPOCH_INTERVAL` and changes its advert with every discovery, whose interval has a
jitter of a second. A receiver hears some of its adverts, and divides them into epochs by their numbers and times.
-/

namespace Sddr.Radio
open Sddr.Lib Sddr.Codec Sddr.Device

/-- The advert `advertNum` of the sender epoch `epoch` is heard at `time`, by a receiver in the state `receiver`. -/
structure Sighting (R : Type) where
  epoch : Nat
  advertNum : Nat
  time : Time
  data : Mem
  receiver : R

namespace Sighting

variable {R : Type}

/-- When the epoch of the advert starts, if the first epoch starts at `start`. -/
def epochStart (start : Int) (s : Sighting R) : Int := start + s.epoch * EPOCH_INTERVAL

/-- Broadcast order. -/
def Before (s s' : Sighting R) : Prop :=
  (s.epoch < s'.epoch ∨ s.epoch = s'.epoch ∧ s.advertNum ≤ s'.advertNum) ∧ s.time ≤ s'.time

instance (s s' : Sighting R) : Decidable (s.Before s') :=
  inferInstanceAs (Decidable ((_ ∨ _ ∧ _) ∧ _))

/-- `Fits` holds of every advert and the first one heard of the epoch that was current before it. -/
def AllFit (Fits : Sighting R → Sighting R → Prop) : Option (Sighting R) → List (Sighting R) → Prop
  | _, [] => True
  | none, s :: rest => AllFit Fits (some s) rest
  | some o, s :: rest => Fits o s ∧ AllFit Fits (some (if o.epoch < s.epoch then s else o)) rest

end Sighting

/-! ## Receiver epochs -/

section
variable {D R : Type} (opens : D → Sighting R → Bool) (receive : D → Sighting R → D)

/-- An advert opens a receiver epoch exactly when it belongs to a later sender epoch than `opened`, the one of the
advert that opened the current receiver epoch. -/
def OpensPerEpoch : Option Nat → D → List (Sighting R) → Prop
  | _, _, [] => True
  | opened, device, s :: rest =>
      (opens device s = true ↔ ∀ k ∈ opened, k < s.epoch) ∧
        OpensPerEpoch (if opens device s then some s.epoch else opened) (receive device s) rest

/-- The sender epochs of the adverts that open a receiver epoch. -/
def openings : D → List (Sighting R) → List Nat
  | _, [] => []
  | device, s :: rest => (if opens device s then [s.epoch] else []) ++ openings (receive device s) rest

end

namespace EbNRadioBT2
open BT2

variable {P : Type} [FloatOps P] {ec : Ec} (sha256 : List Byte → Digest)

/-- The sighting is within the time that the advert is on the air. -/
def OnAir (start : Int) (s : Sighting (EbNRadioBT2 P ec)) : Prop :=
  s.advertNum < ADV_N ∧ (BitMap.ofMem (240 * 8) s.data).readNumber 17 ADV_N_LOG2 = s.advertNum ∧
    s.epochStart start + ((s.advertNum : Int) - 1) * ((DISC_INTERVAL : Int) - 1000) ≤ s.time.toNat ∧
    s.time.toNat ≤ s.epochStart start + ((s.advertNum : Int) + 1) * ((DISC_INTERVAL : Int) + 1000)

instance (start : Int) (s : Sighting (EbNRadioBT2 P ec)) : Decidable (OnAir start s) :=
  inferInstanceAs (Decidable (_ ∧ _ ∧ _ ∧ _))

def hearAdvert (device : EbNDeviceBT2 P) (s : Sighting (EbNRadioBT2 P ec)) : EbNDeviceBT2 P :=
  processEpochs (processAdvert sha256 s.receiver device s.time s.data true).2

def opensEpoch (device : EbNDeviceBT2 P) (s : Sighting (EbNRadioBT2 P ec)) : Bool :=
  decide (device.epochs.length < (processAdvert sha256 s.receiver device s.time s.data true).2.epochs.length)

end EbNRadioBT2

namespace EbNRadioBT4
open Sddr.Erasure BT4

variable {P : Type} [FloatOps P] {ec : Ec} (sha256 : List Byte → Digest) (g : Galois)

/-- The sighting is within the time that the advert is on the air. -/
def OnAir (start : Int) (s : Sighting (EbNRadioBT4 P ec)) : Prop :=
  s.advertNum < ADV_N ∧ (BitMap.ofMem (31 * 8) s.data).readNumber 1 ADV_N_LOG2 = s.advertNum ∧
    s.epochStart start + ((s.advertNum / 2 : Nat) : Int) * ((SCAN_INTERVAL : Int) - 1000) ≤ s.time.toNat ∧
    s.time.toNat ≤ s.epochStart start + (((s.advertNum / 2 : Nat) : Int) + 2) * ((SCAN_INTERVAL : Int) + 1000)

instance (start : Int) (s : Sighting (EbNRadioBT4 P ec)) : Decidable (OnAir start s) :=
  inferInstanceAs (Decidable (_ ∧ _ ∧ _ ∧ _))

def hearAdvert (device : EbNDeviceBT4 P ec) (s : Sighting (EbNRadioBT4 P ec)) : EbNDeviceBT4 P ec :=
  receive sha256 g s.receiver device s.time s.data

def opensEpoch (device : EbNDeviceBT4 P ec) (s : Sighting (EbNRadioBT4 P ec)) : Bool :=
  decide (device.epochs.length < (s.receiver.processAdvert device s.time s.data).2.epochs.length)

/-- The advert `s` comes late enough after `o` if it belongs to a later epoch, and early enough otherwise. -/
def InTime (o s : Sighting (EbNRadioBT4 P ec)) : Prop :=
  if o.epoch < s.epoch then
    o.advertNum = s.advertNum ∨ o.advertNum = s.advertNum + 1 →
      (ADV_N / 2) * SCAN_INTERVAL ≤ s.time.toNat - o.time.toNat
  else
    o.advertNum < s.advertNum →
      s.time.toNat - o.time.toNat < ((s.advertNum - o.advertNum) + 6) * SCAN_INTERVAL / 2

end EbNRadioBT4

end Sddr.Radio
