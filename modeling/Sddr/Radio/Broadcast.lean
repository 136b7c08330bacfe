import Sddr.Radio.BT4

/-!
# Adverts of an epoch and what a receiver hears of them

A sender generates the adverts of an epoch in order, while its other state changes as it likes. A receiver hears
some of them.
-/

namespace Sddr.Radio.EbNRadioBT4
open Sddr.Lib Sddr.Codec Sddr.Device Sddr.Erasure BT4

variable {P : Type} [FloatOps P] {ec : Ec} (sha256 : List Byte → Digest) (g : Galois)

/-- The radios that a run can get to, whatever happens to the part that all radios share. -/
inductive Reachable : EbNRadioBT4 P ec → Prop where
  | new {confirmScheme : ConfirmScheme P} {memoryScheme : MemoryScheme} {now : Time} {key : ec.Key}
      {randomAddress : Address} {r : EbNRadioBT4 P ec}
      (h : new g confirmScheme memoryScheme now key randomAddress = some r) : Reachable r
  | changeEpoch {r : EbNRadioBT4 P ec} (h : Reachable r) (key : ec.Key) (randomAddress : Address) :
      Reachable (changeEpoch g r key randomAddress)
  | generateAdvert {r : EbNRadioBT4 P ec} (h : Reachable r) (rand : Nat → Nat) (advertNum : Nat) :
      Reachable (generateAdvert sha256 rand r advertNum).2
  | other {r : EbNRadioBT4 P ec} (h : Reachable r) (base : EbNRadio P (EbNDeviceBT4 P ec)) :
      Reachable { r with toEbNRadio := base }

/-! ## Sending -/

/-- What changes between two adverts: the values of `rand()` and the devices the radio has met. -/
structure Surroundings (P : Type) (ec : Ec) where
  rand : Nat → Nat
  recent : RecentDevices
  heap : DeviceID → Option (EbNDeviceBT4 P ec)

def Surroundings.apply (env : Surroundings P ec) (r : EbNRadioBT4 P ec) : EbNRadioBT4 P ec :=
  { r with recent := env.recent, heap := env.heap }

/-- The sender before advert `n` of its epoch. -/
def senderAt (env : Nat → Surroundings P ec) (sender : EbNRadioBT4 P ec) : Nat → EbNRadioBT4 P ec
  | 0 => sender
  | n + 1 => (generateAdvert sha256 (env n).rand ((env n).apply (senderAt env sender n)) n).2

/-- The bytes of advert `n` of the epoch. -/
def broadcast (env : Nat → Surroundings P ec) (sender : EbNRadioBT4 P ec) (n : Nat) : List Byte :=
  (generateAdvert sha256 (env n).rand ((env n).apply (senderAt sha256 env sender n)) n).1.toBytes

/-! ## Receiving -/

/-- One event at the receiver: it hears an advert, or its own epoch changes. -/
inductive Hearing (P : Type) (ec : Ec) where
  | advert (advertNum : Nat) (time : Time) (receiver : EbNRadioBT4 P ec)
  | changeEpoch (receiver : EbNRadioBT4 P ec)

/-- `processAdvert` followed by `processEpochs`. -/
def receive (receiver : EbNRadioBT4 P ec) (device : EbNDeviceBT4 P ec) (time : Time) (data : Mem) :
    EbNDeviceBT4 P ec :=
  processEpochs sha256 g receiver (receiver.processAdvert device time data).2

def hear (adverts : Nat → List Byte) (device : EbNDeviceBT4 P ec) : Hearing P ec → EbNDeviceBT4 P ec
  | .advert advertNum time receiver => receive sha256 g receiver device time (Mem.ofList (adverts advertNum))
  | .changeEpoch receiver => receiver.changeEpochDevice device


/-- The advert goes to the receiver's epoch for its sender epoch: the first one opens it, the others go to it. -/
def Attributed (isFirst : Bool) : AdvertClass (Epoch P ec) → Prop
  | .isDuplicate => False
  | .current _ => isFirst = false
  | .isNew => isFirst = true

/-- Events in which adverts from number `next` on are heard in order, each at most once, and all attributed. -/
def Heard (adverts : Nat → List Byte) : Bool → Nat → EbNDeviceBT4 P ec → List (Hearing P ec) → Prop
  | _, _, _, [] => True
  | isFirst, next, device, .changeEpoch receiver :: rest =>
      Heard adverts isFirst next (hear sha256 g adverts device (.changeEpoch receiver)) rest
  | isFirst, next, device, .advert advertNum time receiver :: rest =>
      Reachable sha256 g receiver ∧ next ≤ advertNum ∧ advertNum < ADV_N ∧
        Attributed isFirst (classify device.epochs advertNum time) ∧
        Heard adverts false (advertNum + 1) (hear sha256 g adverts device (.advert advertNum time receiver)) rest

end Sddr.Radio.EbNRadioBT4
