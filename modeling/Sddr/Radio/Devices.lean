import Sddr.Radio.Actions
import Sddr.Radio.BT2
import Sddr.Radio.Lemmas.Tracking

/-!
# The devices of the radios

The devices that `EbNRadioBT2` and `EbNRadioBT4` keep in their maps, and what adverts, messages and changes of epoch do to
them.
-/

namespace Sddr.Radio
open Sddr.Lib Sddr.Codec Sddr.Device Sddr.Erasure

variable {P : Type} [FloatOps P] {ec : Ec} {sha256 : List Byte → Digest}

/-- The devices of `EbNRadioBT2NR` and `EbNRadioBT2PSI` add nothing that an action uses. -/
instance : RadioDevice (EbNDevice P) where
  create := EbNDevice.new
  base_create _ _ _ := ⟨_, _, _, rfl⟩
  base_update _ _ := rfl
  getID _ := rfl
  getAddress _ := rfl
  base_setAddress _ _ := ⟨_, _, _, rfl⟩

/-! ## EbNRadioBT2 -/

instance : Addressed (EbNDeviceBT2 P) :=
  ⟨fun d => d.id, fun d => d.address, fun d a => { d with toEbNDevice := d.toEbNDevice.setAddress a }⟩

instance : RadioDevice (EbNDeviceBT2 P) where
  create := EbNDeviceBT2.new
  base_create _ _ _ := ⟨_, _, _, rfl⟩
  base_update _ _ := rfl
  getID _ := rfl
  getAddress _ := rfl
  base_setAddress _ _ := ⟨_, _, _, rfl⟩

namespace EbNRadioBT2

theorem openEpoch_changed (r : EbNRadioBT2 P ec) (device : EbNDeviceBT2 P) (time : Time) (advert : BitMap)
    (advertNum : Nat) (computeSecret : Bool) :
    Changed sha256 device.toEbNDevice (r.openEpoch device time advert advertNum computeSecret).2.toEbNDevice := by
  unfold openEpoch
  dsimp only
  split_ifs
  · split
    · next sharedSecret _ => exact .op (.addSharedSecret sharedSecret) _
    · exact .refl _
  · exact .refl _

theorem applyBloom_changed (r : EbNRadioBT2 P ec) (device : EbNDeviceBT2 P) (advert : BitMap) (advertNum : Nat)
    (curEpoch : BT2.Epoch) (isNew : Bool) :
    Changed sha256 device.toEbNDevice (r.applyBloom sha256 device advert advertNum curEpoch isNew).toEbNDevice := by
  unfold applyBloom
  dsimp only
  split_ifs
  · exact (Changed.op (.updateMatching _ _) _).trans (.op (.confirmPassive _ _ _) _)
  · exact .op (.updateMatching _ _) _

/-- What a response of an EbN device does to it; `computeSecret` is whether confirmation is passive. -/
def advertEffect (r : EbNRadioBT2 P ec) (time : Time) (data : Mem) (computeSecret : Bool) :
    Effect sha256 (EbNDeviceBT2 P) where
  run device := processEpochs (r.processAdvert sha256 device time data computeSecret).2
  changed device := by
    show Changed sha256 device.toEbNDevice (r.processAdvert sha256 device time data computeSecret).2.toEbNDevice
    unfold processAdvert
    dsimp only
    split
    · split
      · exact .refl _
      · exact applyBloom_changed r _ _ _ _ _
      · exact (openEpoch_changed r _ _ _ _ _).trans (applyBloom_changed r _ _ _ _ _)
    · exact .refl _

end EbNRadioBT2

/-! ## EbNRadioBT4 -/

instance : RadioDevice (EbNDeviceBT4 P ec) where
  create := EbNDeviceBT4.new
  base_create _ _ _ := ⟨_, _, _, rfl⟩
  base_update _ _ := rfl
  getID _ := rfl
  getAddress _ := rfl
  base_setAddress _ _ := ⟨_, _, _, rfl⟩

namespace EbNRadioBT4

variable {g : Galois}

theorem processEpochsFrom_changed (r : EbNRadioBT4 P ec) (epochs : List (BT4.Epoch P ec)) (kept : Nat)
    (device : EbNDevice P) :
    Changed sha256 device (processEpochsFrom sha256 g r kept epochs device).2 := by
  induction epochs generalizing kept device with
  | nil => exact .refl device
  | cons epoch epochs ih =>
      have hfirst : Changed sha256 device (processEpoch sha256 g r epoch device).2 :=
        (decodeEpoch_changed r epoch device).trans (processEpoch_changed r epoch device)
      rw [processEpochsFrom]
      dsimp only
      split_ifs
      · exact hfirst.trans (ih _ _)
      · exact hfirst.trans (ih _ _)

/-- What an advert does to its device. -/
def advertEffect (g : Galois) (r : EbNRadioBT4 P ec) (time : Time) (data : Mem) :
    Effect sha256 (EbNDeviceBT4 P ec) where
  run device := receive sha256 g r device time data
  changed device := by
    have hadvert : (r.processAdvert device time data).2.toEbNDevice = device.toEbNDevice := by
      unfold processAdvert
      dsimp only
      split
      · split <;> rfl
      · rfl
    have hepochs : Changed sha256 (r.processAdvert device time data).2.toEbNDevice
        (receive sha256 g r device time data).toEbNDevice := processEpochsFrom_changed r _ 0 _
    rw [hadvert] at hepochs
    exact hepochs

/-- What the message of an active handshake does to its device. -/
def messageEffect (r : EbNRadioBT4 P ec) (message : List Byte) : Effect sha256 (EbNDeviceBT4 P ec) where
  run device := { device with toEbNDevice := r.processActiveHandshake sha256 message device.toEbNDevice }
  changed device := by
    show Changed sha256 device.toEbNDevice (r.processActiveHandshake sha256 message device.toEbNDevice)
    unfold processActiveHandshake
    dsimp only
    split
    · exact .refl _
    · split
      · next sharedSecret _ =>
          exact (Changed.op (.addSharedSecret sharedSecret) _).trans (.op (.updateMatching _ _) _)
      · exact .op (.updateMatching _ _) _

/-- What a change of epoch does to the devices, once the key is new. -/
def epochEffect (r : EbNRadioBT4 P ec) : Effect sha256 (EbNDeviceBT4 P ec) where
  run device := if r.confirmScheme.type.hasPassive then r.changeEpochDevice device else device
  changed device := by
    split_ifs
    · show Changed sha256 device.toEbNDevice (r.changeEpochDevice device).toEbNDevice
      unfold changeEpochDevice
      split
      · exact .refl _
      · split
        · split
          · next sharedSecret _ => exact .op (.addSharedSecret sharedSecret) _
          · exact .refl _
        · exact .refl _
    · exact .refl _

/-- `changeEpoch` does to the shared part of the radio what any radio does. -/
theorem changeEpoch_base (r : EbNRadioBT4 P ec) (key : ec.Key) (randomAddress : Address) :
    (changeEpoch g r key randomAddress).toEbNRadio
      = r.toEbNRadio.changeEpoch (epochEffect (shiftEpoch g r key randomAddress) : Effect sha256 (EbNDeviceBT4 P ec)) := by
  let effect : Effect sha256 (EbNDeviceBT4 P ec) := epochEffect (shiftEpoch g r key randomAddress)
  have hheap : (changeEpoch g r key randomAddress).heap = (r.toEbNRadio.changeEpoch effect).heap := by
    unfold changeEpoch EbNRadio.changeEpoch
    by_cases hpassive : (shiftEpoch g r key randomAddress).confirmScheme.type.hasPassive = true
    · simp only [effect, epochEffect, hpassive, if_true]
      rfl
    · simp only [effect, epochEffect, hpassive, if_false, Bool.false_eq_true, Option.map_id', ite_self]
      rfl
  calc (changeEpoch g r key randomAddress).toEbNRadio
      = { r.toEbNRadio.changeEpoch effect with heap := (changeEpoch g r key randomAddress).heap } := rfl
    _ = r.toEbNRadio.changeEpoch effect := by rw [hheap]

end EbNRadioBT4

end Sddr.Radio
