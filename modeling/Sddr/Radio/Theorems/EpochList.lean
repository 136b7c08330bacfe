import Sddr.Radio.Lemmas.EpochList
import Sddr.Radio.Theorems.BT4

/-! # The epochs of a device, over whole runs -/

namespace Sddr.Radio.EbNRadioBT4
open Sddr.Lib Sddr.Codec Sddr.Device Sddr.Erasure BT4

/-- A device that starts without epochs has the two at most that it needs, and the next step is defined. -/
theorem epochs_kept {P : Type} [FloatOps P] {ec : Ec} (sha256 : List Byte → Digest) (g : Galois)
    (r : EbNRadioBT4 P ec) (hr : Reachable sha256 g r) (id : DeviceID)
    (hstart : ∀ device, r.heap id = some device → device.epochs = []) (events : List (EpochEvent ec)) :
    let r' := events.foldl (onEpochEvent sha256 g) r
    ∀ device, r'.heap id = some device →
      EpochsKept device ∧
        (∀ time data, receiveIn sha256 g r' device time data = some (receive sha256 g r' device time data)) ∧
        ∀ key randomAddress, (shiftEpoch g r' key randomAddress).changeEpochDeviceIn device
          = some ((shiftEpoch g r' key randomAddress).changeEpochDevice device) := by
  intro r' device hdevice
  have hinv : RadioInv id r' :=
    foldl_onEpochEvent_inv ⟨hr.codeSize, fun device hdevice => epochsInv_nil (hstart device hdevice)⟩ events
  have hkept := hinv.device device hdevice
  exact ⟨hkept.toEpochsKept, fun time data => (receive_inv hinv.matrix hkept time data).1,
    fun key randomAddress => changeEpochDeviceIn_eq _ device⟩

/-- Three adverts and two new keys. -/
theorem epochs_kept_adverts :
    ∃ r : EbNRadioBT4 LogRate byteCurve,
      new galoisShift ⟨.Passive, some 4⟩ .Standard 0 (5 : Byte) (List.replicate 6 0) = some r ∧
        let met : EbNRadioBT4 LogRate byteCurve :=
          { r with heap := fun _ => some (EbNDeviceBT4.new 0 (List.replicate 6 0) [[1]]) }
        let events : List (EpochEvent byteCurve) :=
          [.advert 0 10 fun _ => 0, .changeEpoch (7 : Byte) (List.replicate 6 1), .advert 0 10 fun _ => 255,
            .changeEpoch (9 : Byte) (List.replicate 6 2), .advert 0 90000000 fun _ => 0]
        let r' := events.foldl (onEpochEvent (fun _ => 0) galoisShift) met
        ∀ device, r'.heap 0 = some device →
          EpochsKept device ∧
            (∀ time data, receiveIn (fun _ => 0) galoisShift r' device time data
              = some (receive (fun _ => 0) galoisShift r' device time data)) ∧
            ∀ key randomAddress, (shiftEpoch galoisShift r' key randomAddress).changeEpochDeviceIn device
              = some ((shiftEpoch galoisShift r' key randomAddress).changeEpochDevice device) := by
  obtain ⟨r, hr⟩ := new_logRate ⟨.Passive, some 4⟩ .Standard 0 (5 : Byte) (List.replicate 6 0)
  have hreach : Reachable (fun _ => 0) galoisShift r := .new hr
  have hmet := hreach.other { r.toEbNRadio with heap := fun _ => some (EbNDeviceBT4.new 0 (List.replicate 6 0) [[1]]) }
  refine ⟨r, hr, epochs_kept (fun _ => 0) galoisShift _ hmet 0 (fun device hdevice => ?_) _⟩
  rw [← Option.some.inj hdevice]
  rfl

end Sddr.Radio.EbNRadioBT4
