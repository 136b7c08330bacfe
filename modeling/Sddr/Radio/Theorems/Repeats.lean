import Sddr.Radio.Lemmas.Repeats
import Sddr.Radio.Theorems.BT2
import Sddr.Radio.Theorems.BT4
import Sddr.Radio.Theorems.Schedule

/-! # Main results about repeated adverts -/

namespace Sddr.Radio
open Sddr.Lib Sddr.Codec Sddr.Device Sddr.Erasure

/-- After any adverts, one that was accepted in the current epoch and is heard again within the duplicate interval is
skipped, and leaves the device as it is, exactly when it has the number of the advert that opened the epoch. -/
theorem repeat_skipped_iff {P : Type} [FloatOps P] (hone : FloatOps.eq (FloatOps.one : P) FloatOps.one = true)
    (ec : Ec) (sha256 : List Byte → Digest) (g : Galois) :
    (∀ (device : EbNDeviceBT2 P), device.epochs = [] → ∀ (adverts : List (EbNRadioBT2 P ec × Time × Mem)),
      let h := adverts.foldl (EbNRadioBT2.hearAgain sha256) ⟨device, []⟩
      ∀ a ∈ h.accepted, ∀ (r : EbNRadioBT2 P ec) (time : Time),
        (time - a.1).toNat < (BT2.ADV_N - 3) * BT2.DISC_INTERVAL →
          (EbNRadioBT2.Skipped sha256 r h.device time a.2 ↔
            (h.accepted.head?.map fun first => EbNRadioBT2.advertNumber first.2) = some (EbNRadioBT2.advertNumber a.2))) ∧
    (∀ (device : EbNDeviceBT4 P ec), device.epochs = [] → ∀ (adverts : List (EbNRadioBT4 P ec × Time × Mem)),
      let h := adverts.foldl (EbNRadioBT4.hearAgain sha256 g) ⟨device, []⟩
      ∀ a ∈ h.accepted, ∀ (r : EbNRadioBT4 P ec) (time : Time),
        (time - a.1).toNat < (BT4.ADV_N / 2) * BT4.SCAN_INTERVAL →
          (EbNRadioBT4.Skipped sha256 g r h.device time a.2 ↔
            (h.accepted.head?.map fun first => EbNRadioBT4.advertNumber first.2) = some (EbNRadioBT4.advertNumber a.2))) := by
  constructor
  · intro device hdevice adverts h a ha r time hsoon
    have hstart : EbNRadioBT2.RepeatInv ⟨device, []⟩ := by
      refine ⟨?_, ?_⟩
      · rw [hdevice]
        exact .empty
      · rw [hdevice]
        exact Nat.zero_le 1
    exact (hstart.run adverts).skipped_iff ha r hsoon
  · intro device hdevice adverts h a ha r time hsoon
    have hstart : EbNRadioBT4.RepeatInv ⟨device, []⟩ := by
      refine ⟨?_, ?_⟩
      · rw [hdevice]
        exact .empty
      · rw [hdevice]
        exact ⟨fun e he => absurd he List.not_mem_nil, fun e he => absurd he List.not_mem_nil, Nat.zero_le 2⟩
    exact (hstart.run hone adverts).skipped_iff ha r hsoon

namespace EbNRadioBT2

/-- The bytes of a response with all bits set but those of `n`. -/
def fullData (n : Byte) : Mem := fun i => if i = 2 then n else 0xFF

/-- Adverts 3 and 5. -/
def twoAdverts : List (EbNRadioBT2 LogRate byteCurve × Time × Mem) :=
  [(oneValueRadio, 180000, fullData 0xE7), (oneValueRadio, 300000, fullData 0xEB)]

theorem twoAdverts_accepted : (twoAdverts.foldl (hearAgain fun _ => 0) ⟨oneValueDevice, []⟩).accepted
    = [(180000, fullData 0xE7), (300000, fullData 0xEB)] := rfl

/-- The filter of advert 5 counts again at every repeat, and confirms the shared secret alone. -/
theorem repeat_skipped_fails :
    let h := twoAdverts.foldl (hearAgain fun _ => 0) ⟨oneValueDevice, []⟩
    let again := fun (repeats : Nat) =>
      (List.replicate repeats (oneValueRadio, (300001 : Time), fullData 0xEB)).foldl (hearAgain fun _ => 0) h
    oneValueRadio.confirmScheme.type = .Passive ∧ h.accepted = [(180000, fullData 0xE7), (300000, fullData 0xEB)] ∧
      (300001 - 300000 : Time).toNat < (BT2.ADV_N - 3) * BT2.DISC_INTERVAL ∧
      ¬Skipped (fun _ => 0) oneValueRadio h.device 300001 (fullData 0xEB) ∧
      (h.device.sharedSecrets.map fun s => (s.pFalse, s.confirmed)) = [(some 1, false)] ∧
      ((again 1).device.sharedSecrets.map fun s => (s.pFalse, s.confirmed)) = [(some 2, false)] ∧
      ((again 3).device.sharedSecrets.map fun s => (s.pFalse, s.confirmed)) = [(some 4, true)] := by
  refine ⟨rfl, twoAdverts_accepted, by decide, fun hskipped => ?_, by decide +kernel,
    by decide +kernel, by decide +kernel⟩
  exact absurd hskipped.1 (by decide +kernel)

end EbNRadioBT2

theorem repeat_skipped_iff_first :
    ∃ r : EbNRadioBT4 LogRate byteCurve,
      EbNRadioBT4.new galoisShift ⟨.Passive, some 4⟩ .Standard 0 (5 : Byte) (List.replicate 6 0) = some r ∧
        (let h := EbNRadioBT2.twoAdverts.foldl (EbNRadioBT2.hearAgain fun _ => 0) ⟨EbNRadioBT2.oneValueDevice, []⟩
         EbNRadioBT2.Skipped (fun _ => 0) EbNRadioBT2.oneValueRadio h.device 180001 (EbNRadioBT2.fullData 0xE7) ↔
          (h.accepted.head?.map fun first => EbNRadioBT2.advertNumber first.2)
            = some (EbNRadioBT2.advertNumber (EbNRadioBT2.fullData 0xE7))) ∧
        (let h := [(r, (0 : Time), EbNRadioBT4.numberData 0)].foldl (EbNRadioBT4.hearAgain (fun _ => 0) galoisShift)
          ⟨EbNDeviceBT4.new 0 (List.replicate 6 0) [[1]], []⟩
         EbNRadioBT4.Skipped (fun _ => 0) galoisShift r h.device 13500 (EbNRadioBT4.numberData 0) ↔
          (h.accepted.head?.map fun first => EbNRadioBT4.advertNumber first.2)
            = some (EbNRadioBT4.advertNumber (EbNRadioBT4.numberData 0))) := by
  obtain ⟨r, hr⟩ := EbNRadioBT4.new_logRate ⟨.Passive, some 4⟩ .Standard 0 (5 : Byte) (List.replicate 6 0)
  obtain ⟨hBT2, hBT4⟩ := repeat_skipped_iff (P := LogRate) (by decide) byteCurve (fun _ => 0) galoisShift
  have hnumber : EbNRadioBT4.advertNumber (EbNRadioBT4.numberData 0)
      < BT4.RS_K LogRate byteCurve + BT4.RS_M LogRate byteCurve := by
    rw [BT4.symbols_per_epoch BT4.confirmValues_logRate byteCurve]
    decide
  refine ⟨r, hr, ?_, ?_⟩
  · refine hBT2 _ rfl EbNRadioBT2.twoAdverts (180000, EbNRadioBT2.fullData 0xE7) ?_ EbNRadioBT2.oneValueRadio 180001
      (by decide)
    rw [EbNRadioBT2.twoAdverts_accepted]
    exact List.mem_cons_self
  · refine hBT4 _ rfl [(r, 0, EbNRadioBT4.numberData 0)] (0, EbNRadioBT4.numberData 0) ?_ r 13500 (by decide)
    rw [List.foldl_cons, List.foldl_nil, EbNRadioBT4.hearAgain, if_pos hnumber]
    exact List.mem_cons_self

end Sddr.Radio
