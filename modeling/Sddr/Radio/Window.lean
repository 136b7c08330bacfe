import Sddr.Radio.Broadcast

/-!
# Windows of consecutive adverts

A sender goes through its epochs, and a receiver hears a part of the adverts that follow each other.
-/

namespace Sddr.Radio.EbNRadioBT4
open Sddr.Lib Sddr.Codec Sddr.Device Sddr.Erasure BT4

variable {P : Type} [FloatOps P] {ec : Ec} (sha256 : List Byte → Digest) (g : Galois)

/-! ## The sender -/

/-- An epoch with `count` adverts. At each of them `rand()` yields new values, and the part that all radios share may have
changed. `key` and `randomAddress` are those of the change of epoch at its end. -/
structure EpochPlan (P : Type) (ec : Ec) where
  count : Nat
  rand : Nat → Nat → Nat
  base : Nat → EbNRadio P (EbNDeviceBT4 P ec)
  key : ec.Key
  randomAddress : Address

namespace EpochPlan

/-- The sender before advert `n` of the epoch. -/
def radio (plan : EpochPlan P ec) (sender : EbNRadioBT4 P ec) : Nat → EbNRadioBT4 P ec
  | 0 => { sender with toEbNRadio := plan.base 0 }
  | n + 1 => { (generateAdvert sha256 (plan.rand n) (radio plan sender n) n).2 with toEbNRadio := plan.base (n + 1) }

/-- The bytes of advert `n` of the epoch. -/
def advert (plan : EpochPlan P ec) (sender : EbNRadioBT4 P ec) (n : Nat) : List Byte :=
  (generateAdvert sha256 (plan.rand n) (plan.radio sha256 sender n) n).1.toBytes

end EpochPlan

variable (plans : Nat → EpochPlan P ec) (sender : EbNRadioBT4 P ec)

/-- The sender at the start of each epoch. -/
def epochSender : Nat → EbNRadioBT4 P ec
  | 0 => sender
  | e + 1 => changeEpoch g ((plans e).radio sha256 (epochSender e) (plans e).count) (plans e).key (plans e).randomAddress

/-- The bytes of advert `n` of epoch `e`. -/
abbrev epochAdvert (e n : Nat) : List Byte := (plans e).advert sha256 (epochSender sha256 g plans sender e) n

/-- The adverts of the first `epochs` epochs, each with its epoch and its number. -/
def broadcasts (epochs : Nat) : List (Nat × Nat) :=
  (List.range epochs).flatMap fun e => (List.range (plans e).count).map (Prod.mk e)

/-! ## The receiver -/

/-- One event at the receiver: it hears an advert, its own epoch changes, or the part that all devices share does. -/
inductive Reception (P : Type) (ec : Ec) where
  | hear (epoch advertNum : Nat) (time : Time) (receiver : EbNRadioBT4 P ec)
  | changeEpoch (receiver : EbNRadioBT4 P ec)
  | other (base : EbNDevice P)

def Reception.heard? : Reception P ec → Option (Nat × Nat)
  | .hear epoch advertNum _ _ => some (epoch, advertNum)
  | _ => none

/-- Every epoch before and after the loop of `processEpochs` goes through it, also if it is then removed. -/
def visitEpochs (r : EbNRadioBT4 P ec) : List (Epoch P ec) → EbNDevice P → List (Epoch P ec × Epoch P ec)
  | [], _ => []
  | epoch :: epochs, device =>
      let processed := processEpoch sha256 g r epoch device
      (epoch, processed.1) :: visitEpochs r epochs processed.2

/-- The remote keys that `processEpochs` decodes. -/
def decodedKeys (r : EbNRadioBT4 P ec) (device : EbNDeviceBT4 P ec) : List (List Byte) :=
  ((visitEpochs sha256 g r device.epochs device.toEbNDevice).filter fun e =>
    !e.1.dhDecoder.isDecoded && e.2.dhDecoder.isDecoded).map fun e => e.2.dhDecoder.data

/-- A device, the sender epoch of the last advert heard from it, and all keys that were decoded. -/
structure Listener (P : Type) (ec : Ec) where
  device : EbNDeviceBT4 P ec
  opened : Option Nat
  decoded : List (List Byte)

namespace Listener

variable (adverts : Nat → Nat → List Byte)

def step (l : Listener P ec) : Reception P ec → Listener P ec
  | .hear epoch advertNum time receiver =>
      let data := Mem.ofList (adverts epoch advertNum)
      { device := receive sha256 g receiver l.device time data
        opened := some epoch
        decoded := l.decoded ++ decodedKeys sha256 g receiver (receiver.processAdvert l.device time data).2 }
  | .changeEpoch receiver => { l with device := receiver.changeEpochDevice l.device }
  | .other base => { l with device := { l.device with toEbNDevice := base } }

/-- Adverts go to the receiver's epoch for their sender epoch. -/
def AllAttributed (l : Listener P ec) : List (Reception P ec) → Prop
  | [] => True
  | event :: events =>
      (∀ epoch advertNum time receiver, event = .hear epoch advertNum time receiver → Reachable sha256 g receiver ∧
        Attributed (decide (l.opened ≠ some epoch)) (classify l.device.epochs advertNum time)) ∧
        AllAttributed (l.step sha256 g adverts event) events

end Listener

end Sddr.Radio.EbNRadioBT4
