import Sddr.Device.Lemmas.Reports
import Sddr.Radio.BT2
import Sddr.Radio.Lemmas.EbNRadio
import Sddr.Radio.Lemmas.Insertions

/-!
# What a BT2 advert carries

The receiver finds number and key where the sender put them. It takes the bits from the key on for the filter, and the
last 16 bits of the filter are not in the advert.
-/

namespace Sddr.Radio.EbNRadioBT2
open Sddr.Lib Sddr.Codec Sddr.Device BT2

variable {P : Type} {ec : Ec} {sender receiver : EbNRadioBT2 P ec} {n : Nat}

/-! ## The sender's layout -/

theorem get_advertHeader {j : Nat} (hj : 17 ≤ j) :
    (sender.advertHeader n).get j
      = if j < 21 then n.testBit (j - 17)
        else if j < 21 + ec.keySize then sender.dhExchange.getPublicX.bit (j - 21) else false := by
  have h0 : ¬ j / 8 = 0 := by omega
  have h1 : ¬ j / 8 = 1 := by omega
  simp only [advertHeader, ADV_N_LOG2, keySize, BitMap.get_copyFrom, BitMap.get_writeNumber, BitMap.get_setByte, h0,
    h1, if_false, BitMap.get_setAll_false_new, Nat.zero_add]
  split_ifs <;> first | rfl | omega

/-- The receiver's prefix is the sender's. -/
theorem prefixOf_received :
    (receiver.prefixOf n (Mem.ofList (sender.dhExchange.getPublicX.take (ec.keySize / 8)))).toBytes
      = (sender.prefixOf n sender.dhExchange.getPublicX).toBytes := by
  have hkeySize := ec.keySize_facts
  exact hashPrefix_congr _ _ fun j hj => Mem.bit_ofList_take (by simp only [keySize] at hj; omega)

variable [FloatOps P] {sha256 : List Byte → Digest} {rand : Nat → Nat}

theorem size_generateAdvert : (generateAdvert sha256 rand sender n).size = 1920 := by
  have h : ∀ (b : BitMap) (offset value k : Nat), (b.writeNumber offset value k).size = b.size := by
    intro b offset value k
    induction k with
    | zero => rfl
    | succ k ih => rw [BitMap.writeNumber, List.range_succ, List.foldl_append]; exact ih
  exact h _ _ _ _

variable (sha256 rand sender n) in
theorem get_generateAdvert {j : Nat} (hj : 17 ≤ j) :
    (generateAdvert sha256 rand sender n).get j
      = if j < 21 then n.testBit (j - 17)
        else if j < 21 + ec.keySize then sender.dhExchange.getPublicX.bit (j - 21)
        else if j < 1904 then (advertBloom sha256 rand sender n).bits.get (j - (21 + ec.keySize)) else false := by
  have hM : (advertBloom sha256 rand sender n).M = 1899 - ec.keySize :=
    (fillBloomFilter_grows sha256 rand sender.toEbNRadio _ _ true).M
  have hkeySize := ec.keySize_facts
  rw [generateAdvert, BitMap.get_copyFrom, get_advertHeader hj, hM, BitMap.get_eq_bit]
  simp only [keySize, ADV_N_LOG2, Nat.zero_add]
  split_ifs <;> first | rfl | omega

/-! ## The receiver's reading -/

/-- The bytes the receiver gets. -/
abbrev onAir (sha256 : List Byte → Digest) (rand : Nat → Nat) (sender : EbNRadioBT2 P ec) (n : Nat) : Mem :=
  Mem.ofList (generateAdvert sha256 rand sender n).toBytes

theorem get_received {j : Nat} (hj : j < 1920) :
    (BitMap.ofMem (240 * 8) (onAir sha256 rand sender n)).get j = (generateAdvert sha256 rand sender n).get j := by
  have h := BitMap.get_ofMem_toBytes (b := generateAdvert sha256 rand sender n) (j := j)
    (by rw [size_generateAdvert]; exact hj)
  rwa [size_generateAdvert] at h

theorem readNumber_received (hn : n < ADV_N) :
    (BitMap.ofMem (240 * 8) (onAir sha256 rand sender n)).readNumber 17 ADV_N_LOG2 = n := by
  have h16 : n < 2 ^ ADV_N_LOG2 := by simp only [ADV_N, ADV_N_LOG2, EPOCH_INTERVAL, DISC_INTERVAL] at *; omega
  refine BitMap.readNumber_eq h16 fun i hi => ?_
  simp only [ADV_N_LOG2] at hi
  rw [get_received (by omega), get_generateAdvert _ _ _ _ (by omega), if_pos (by omega), Nat.add_sub_cancel]

theorem readPublicX_received {dhRemotePublic : List Byte} :
    receiver.readPublicX (BitMap.ofMem (240 * 8) (onAir sha256 rand sender n)) dhRemotePublic
      = sender.dhExchange.getPublicX.take (ec.keySize / 8) := by
  have hkeySize := ec.keySize_facts
  refine Mem.take_eq_of_bits fun j hj => ?_
  simp only [keySize, ADV_N_LOG2] at hj ⊢
  rw [BitMap.bit_copyTo, if_pos (by omega), get_received (by omega), get_generateAdvert _ _ _ _ (by omega),
    if_neg (by omega), if_pos (by omega)]
  congr 1
  omega

/-- What the sender's filter holds. -/
theorem get_advertBloom {j : Nat} :
    (advertBloom sha256 rand sender n).bits.get j = true ↔ j ∈ advertIndices sha256 rand sender n := by
  rw [advertBloom, fillBloomFilter_eq, get_foldl_set]
  refine or_iff_left ?_
  rw [BloomFilter.new, BitMap.get_new]
  exact Bool.false_ne_true

/-- The receiver's filter begins with the sender's key. -/
theorem get_receivedBloom {j : Nat} (hj : j < 1899) :
    ((BitMap.new 1899).copyFrom (BitMap.ofMem (240 * 8) (onAir sha256 rand sender n)).bits 21 0 1899).get j = true
      ↔ FoundAt sha256 rand sender n j := by
  have hkeySize := ec.keySize_facts
  have hBF_M : sender.BF_M = 1899 - ec.keySize := rfl
  rw [BitMap.get_copyFrom, if_pos (by omega), Nat.sub_zero, ← BitMap.get_eq_bit, get_received (by omega),
    get_generateAdvert _ _ _ _ (by omega), if_neg (by omega), FoundAt, hBF_M, keySize, Nat.add_sub_cancel_left,
    Nat.add_sub_add_left, ← get_advertBloom]
  by_cases hkey : j < ec.keySize
  · rw [if_pos (by omega), if_pos hkey]
  · rw [if_neg (by omega), if_neg hkey]
    by_cases hin : j < 1883
    · rw [if_pos (by omega), and_iff_right (by omega)]
    · rw [if_neg (by omega)]
      exact iff_of_false Bool.false_ne_true fun h => absurd h.1 (by omega)

theorem holds_received {hash : Digest} :
    let advert := BitMap.ofMem (240 * 8) (onAir sha256 rand sender n)
    (BloomFilter.ofBitMap (P := P) BF_N 4 advert 21 1899).Holds hash
      ↔ ∀ k < 4, FoundAt sha256 rand sender n (hash.word k % 1899) := by
  refine forall_congr' fun k => imp_congr_right fun _ => ?_
  exact get_receivedBloom (Nat.mod_lt _ (show 0 < 1899 by decide))

/-! ## The whole step on a device without epochs -/

variable {device : EbNDeviceBT2 P} {time : Time}

variable (sha256 rand sender receiver n device time) in
theorem openEpoch_received :
    let opened := receiver.openEpoch device time (BitMap.ofMem (240 * 8) (onAir sha256 rand sender n)) n true
    opened.1 = ⟨n, time, sender.dhExchange.getPublicX.take (ec.keySize / 8)⟩ ∧
      opened.2.epochs = device.epochs ++ [opened.1] ∧ opened.2.matching = device.matching := by
  intro opened
  simp only [opened, openEpoch, readPublicX_received, Epoch.new, if_true]
  cases receiver.dhExchange.computeSharedSecretXY (SharedSecret.ofConfirmed (P := P) (receiver.confirmScheme.type = .None))
      (Mem.ofList (sender.dhExchange.getPublicX.take (ec.keySize / 8))) device.address.yCoord with
  | none => exact ⟨rfl, rfl, rfl⟩
  | some sharedSecret => exact ⟨rfl, rfl, (addSharedSecret_matching device.toEbNDevice sharedSecret).1⟩

variable (sha256 rand sender receiver time) in
/-- The sender's key and number, and the values that stay in the matching set. -/
theorem processAdvert_received (hn : n < ADV_N) (hnew : device.epochs = []) :
    let received := (processAdvert sha256 receiver device time (onAir sha256 rand sender n) true).2
    let pre := (sender.prefixOf n sender.dhExchange.getPublicX).toBytes
    received.epochs = [⟨n, time, sender.dhExchange.getPublicX.take (ec.keySize / 8)⟩] ∧
      ∀ v, v ∈ received.matching ↔ v ∈ device.matching ∧
        ∀ k < 4, FoundAt sha256 rand sender n ((sha256 (pre ++ v)).word k % 1899) := by
  intro received pre
  obtain ⟨hepoch, hepochs, hmatching⟩ := openEpoch_received sender receiver n sha256 rand device time
  have hstep : received = applyBloom sha256 receiver
      (receiver.openEpoch device time (BitMap.ofMem (240 * 8) (onAir sha256 rand sender n)) n true).2
      (BitMap.ofMem (240 * 8) (onAir sha256 rand sender n)) n
      (receiver.openEpoch device time (BitMap.ofMem (240 * 8) (onAir sha256 rand sender n)) n true).1 true := by
    simp only [received, processAdvert, readNumber_received hn, if_pos hn, hnew, classify, List.getLast?_nil]
  rw [hstep, hepoch]
  refine ⟨?_, fun v => ?_⟩
  · rw [hnew, hepoch] at hepochs
    exact hepochs
  · simp only [applyBloom, Bool.not_true, Bool.and_false, Bool.false_eq_true, if_false, EbNDevice.updateMatching,
      EbNDevice.updateMatchingDelta, List.mem_filter, BloomFilter.query, BloomFilter.queryHash_iff, hmatching,
      prefixOf_received]
    exact and_congr_right fun _ => holds_received

end Sddr.Radio.EbNRadioBT2
