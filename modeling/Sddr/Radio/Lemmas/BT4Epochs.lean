import Sddr.Radio.Broadcast

/-!
# What a reception leaves of the epochs of a device

Processing changes decoders and filters only. An epoch keeps the number and the time it was opened with, and the local
keys it collects.
-/

namespace Sddr.Radio.EbNRadioBT4
open Sddr.Lib Sddr.Codec Sddr.Device Sddr.Erasure BT4

variable {P : Type} [FloatOps P] {ec : Ec} {sha256 : List Byte → Digest} {g : Galois}

/-- The same epoch, as far as opening and keys are concerned. -/
structure SameEpoch (e e' : Epoch P ec) : Prop where
  lastAdvertNum : e'.lastAdvertNum = e.lastAdvertNum
  lastAdvertTime : e'.lastAdvertTime = e.lastAdvertTime
  dhExchanges : e'.dhExchanges = e.dhExchanges
  dhExchangeYCoord : e'.dhExchangeYCoord = e.dhExchangeYCoord

namespace SameEpoch

omit [FloatOps P] in
theorem refl (e : Epoch P ec) : SameEpoch e e := ⟨rfl, rfl, rfl, rfl⟩

omit [FloatOps P] in
theorem trans {e e' e'' : Epoch P ec} (h : SameEpoch e e') (h' : SameEpoch e' e'') : SameEpoch e e'' where
  lastAdvertNum := h'.lastAdvertNum.trans h.lastAdvertNum
  lastAdvertTime := h'.lastAdvertTime.trans h.lastAdvertTime
  dhExchanges := h'.dhExchanges.trans h.dhExchanges
  dhExchangeYCoord := h'.dhExchangeYCoord.trans h.dhExchangeYCoord

end SameEpoch

/-! ## One epoch -/

variable {advert : BitMap} {n : Nat}

theorem receiveAdvert_same (e : Epoch P ec) : SameEpoch e (receiveAdvert advert n e) := ⟨rfl, rfl, rfl, rfl⟩

theorem receivePrevSymbol_same (e : Epoch P ec) : SameEpoch e (receivePrevSymbol advert n e) := by
  unfold receivePrevSymbol
  split_ifs
  · exact ⟨rfl, rfl, rfl, rfl⟩
  · exact .refl e

variable (g) in
theorem decodeEpoch_same (r : EbNRadioBT4 P ec) (e : Epoch P ec) (device : EbNDevice P) :
    SameEpoch e (decodeEpoch g r e device).1 ∧ (decodeEpoch g r e device).1.blooms = e.blooms := by
  unfold decodeEpoch
  cases !e.dhDecoder.isDecoded && e.dhDecoder.canDecode with
  | false => exact ⟨.refl e, rfl⟩
  | true =>
      rw [if_pos rfl]
      cases e.dhDecoder.decode g with
      | mk result dhDecoder =>
          cases result with
          | none => exact ⟨⟨rfl, rfl, rfl, rfl⟩, rfl⟩
          | some dhRemotePublic => exact ⟨⟨rfl, rfl, rfl, rfl⟩, rfl⟩

/-- An epoch is processed by decoding it and then going through its filters. -/
theorem processEpoch_decoder (r : EbNRadioBT4 P ec) (e : Epoch P ec) (device : EbNDevice P) :
    SameEpoch e (processEpoch sha256 g r e device).1 ∧
      (processEpoch sha256 g r e device).1.dhDecoder = (decodeEpoch g r e device).1.dhDecoder := by
  have hdecode := (decodeEpoch_same g r e device).1
  unfold processEpoch
  dsimp only
  split
  · exact ⟨hdecode.trans ⟨rfl, rfl, rfl, rfl⟩, rfl⟩
  · exact ⟨hdecode, rfl⟩

/-! ## The last epoch -/

omit [FloatOps P] in
theorem classify_current {epochs : List (Epoch P ec)} {time : Time} {curEpoch : Epoch P ec}
    (h : classify epochs n time = .current curEpoch) : epochs.getLast? = some curEpoch := by
  unfold classify at h
  split at h
  · cases h
  · next last hlast =>
      dsimp only at h
      split_ifs at h
      cases h
      exact hlast

/-- An advert changes the epochs only. -/
theorem processAdvert_epochs (r : EbNRadioBT4 P ec) (device : EbNDeviceBT4 P ec) (time : Time) {data : Mem}
    (hnumber : (BitMap.ofMem (31 * 8) data).readNumber 1 ADV_N_LOG2 = n) (hn : n < RS_K P ec + RS_M P ec) :
    (r.processAdvert device time data).2 = { device with
      epochs := r.receiveEpochs device time (BitMap.ofMem (31 * 8) data) n (classify device.epochs n time) } := by
  rw [processAdvert, hnumber, if_pos hn]
  cases classify device.epochs n time <;> rfl

variable (sha256 g) in
theorem processEpochsFrom_last (r : EbNRadioBT4 P ec) (e : Epoch P ec) (init : List (Epoch P ec)) (kept : Nat)
    (device : EbNDevice P) :
    ∃ init' e', (processEpochsFrom sha256 g r kept (init ++ [e]) device).1 = init' ++ [e'] ∧ SameEpoch e e' := by
  induction init generalizing kept device with
  | nil => exact ⟨[], _, rfl, (processEpoch_decoder r e device).1⟩
  | cons p init ih =>
      rw [List.cons_append, processEpochsFrom]
      dsimp only
      split_ifs
      · exact ih kept _
      · obtain ⟨init', e', hrun, hlast⟩ := ih (kept + 1) (processEpoch sha256 g r p device).2
        refine ⟨(processEpoch sha256 g r p device).1 :: init', e', ?_, hlast⟩
        rw [List.cons_append, ← hrun]

end Sddr.Radio.EbNRadioBT4
