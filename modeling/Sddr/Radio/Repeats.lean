import Sddr.Radio.Broadcast
import Sddr.Radio.Exchange

/-!
# Adverts that are heard again

A device, with the adverts that were accepted in its current receiver epoch.
-/

namespace Sddr.Radio
open Sddr.Lib Sddr.Codec Sddr.Device

/-- What has been accepted in the current receiver epoch, after one more advert. -/
def AdvertClass.accept {E α : Type} (advert : α) (accepted : List α) : AdvertClass E → List α
  | .isDuplicate => accepted
  | .current _ => accepted ++ [advert]
  | .isNew => [advert]

/-- The adverts are kept with the times at which they were heard. -/
structure AcceptLog (D : Type) where
  device : D
  accepted : List (Time × Mem)

namespace EbNRadioBT2
open BT2

variable {P : Type} [FloatOps P] {ec : Ec} (sha256 : List Byte → Digest)

def advertNumber (data : Mem) : Nat := (BitMap.ofMem (240 * 8) data).readNumber 17 ADV_N_LOG2

def hearAgain (h : AcceptLog (EbNDeviceBT2 P)) (advert : EbNRadioBT2 P ec × Time × Mem) : AcceptLog (EbNDeviceBT2 P) :=
  let (r, time, data) := advert
  { device := processEpochs (processAdvert sha256 r h.device time data true).2
    accepted := if advertNumber data < ADV_N then
        (classify h.device.epochs (advertNumber data) time).accept (time, data) h.accepted
      else h.accepted }

/-- The advert is not accepted and leaves the device as it is. -/
def Skipped (r : EbNRadioBT2 P ec) (device : EbNDeviceBT2 P) (time : Time) (data : Mem) : Prop :=
  (processAdvert sha256 r device time data true).1 = false ∧
    processEpochs (processAdvert sha256 r device time data true).2 = device

end EbNRadioBT2

namespace EbNRadioBT4
open Sddr.Erasure BT4

variable {P : Type} [FloatOps P] {ec : Ec} (sha256 : List Byte → Digest) (g : Galois)

def advertNumber (data : Mem) : Nat := (BitMap.ofMem (31 * 8) data).readNumber 1 ADV_N_LOG2

def hearAgain (h : AcceptLog (EbNDeviceBT4 P ec)) (advert : EbNRadioBT4 P ec × Time × Mem) : AcceptLog (EbNDeviceBT4 P ec) :=
  let (r, time, data) := advert
  { device := receive sha256 g r h.device time data
    accepted := if advertNumber data < RS_K P ec + RS_M P ec then
        (classify h.device.epochs (advertNumber data) time).accept (time, data) h.accepted
      else h.accepted }

/-- The advert is not accepted and leaves the device as it is. -/
def Skipped (r : EbNRadioBT4 P ec) (device : EbNDeviceBT4 P ec) (time : Time) (data : Mem) : Prop :=
  (r.processAdvert device time data).1 = false ∧ receive sha256 g r device time data = device

end EbNRadioBT4

end Sddr.Radio
