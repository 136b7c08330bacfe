import Sddr.Radio.BT4
import Sddr.Radio.Lemmas.EbNRadio

/-!
# What a BT4 advert carries

With the sizes `computeRSSymbolSize` selects, number, symbols and segment fill the 31 bytes exactly.
-/

namespace Sddr.Radio
open Sddr.Lib Sddr.Codec Sddr.Device Sddr.Erasure

namespace BT4

/-- The floating-point expression of `computeRSSymbolSize` has its mathematical values. -/
def ConfirmValues (P : Type) [FloatOps P] : Prop :=
  ∀ e ∈ FloatOps.confirmTable, FloatOps.advertsConfirm P e.1 = e.2

theorem confirmValues_logRate : ConfirmValues LogRate := by
  unfold ConfirmValues
  decide

/-! ## Sizes -/

section
variable {P : Type} [FloatOps P]

theorem computeRSSymbolSize_eq (h : ConfirmValues P) {keySize : Nat} (hkey : keySize ∈ supportedKeySizes) :
    computeRSSymbolSize P keySize 239 = computeRSSymbolSize LogRate keySize 239 := by
  have htable : ∀ keySize ∈ supportedKeySizes, ∀ w ∈ List.range' 1 (keySize / 8 - 1), keySize / 8 % w = 0 →
      (2 * (239 - 8 * w), FloatOps.advertsConfirm LogRate (2 * (239 - 8 * w))) ∈ FloatOps.confirmTable := by
    decide +kernel
  unfold computeRSSymbolSize
  refine congrArg Prod.fst (List.foldl_ext _ _ _ fun best w hw => ?_)
  unfold betterSymbolSize
  by_cases hdvd : keySize / 8 % w = 0
  · have hsame : FloatOps.advertsConfirm P (2 * (239 - 8 * w)) = FloatOps.advertsConfirm LogRate (2 * (239 - 8 * w)) :=
      h _ (htable keySize hkey w hw hdvd)
    simp only [hsame]
  · rw [if_pos hdvd, if_pos hdvd]

/-- Of the sizes the code uses that the symbols make up the key and that two of them fit in an advert. -/
theorem size_facts (h : ConfirmValues P) (ec : Ec) :
    8 * (RS_W P ec * RS_K P ec) = ec.keySize ∧ RS_W P ec ≤ 8 ∧ 4 ≤ RS_K P ec ∧ RS_K P ec ≤ 6 := by
  have hall : ∀ keySize ∈ supportedKeySizes,
      8 * (computeRSSymbolSize LogRate keySize 239 * (keySize / 8 / computeRSSymbolSize LogRate keySize 239)) = keySize ∧
        computeRSSymbolSize LogRate keySize 239 ≤ 8 ∧ 4 ≤ keySize / 8 / computeRSSymbolSize LogRate keySize 239 ∧
        keySize / 8 / computeRSSymbolSize LogRate keySize 239 ≤ 6 := by
    decide +kernel
  have hW : RS_W P ec = computeRSSymbolSize LogRate ec.keySize 239 := computeRSSymbolSize_eq h ec.supported
  rw [RS_K, hW]
  exact hall ec.keySize ec.supported

/-- Each advert of an epoch has its own symbol. -/
theorem symbols_per_epoch (h : ConfirmValues P) (ec : Ec) : RS_K P ec + RS_M P ec = ADV_N := by
  obtain ⟨_, _, _, hK6⟩ := size_facts h ec
  simp only [RS_M, ADV_N, EPOCH_INTERVAL, SCAN_INTERVAL]
  omega

variable (P) in
/-- The size of the segment in advert `n`. -/
def segmentSize (ec : Ec) (n : Nat) : Nat := if n < RS_K P ec - 1 then BF_SM P ec - 8 * RS_W P ec else BF_SM P ec

theorem segmentSizes_eq (ec : Ec) (bloomNum : Nat) :
    segmentSizes P ec bloomNum = [segmentSize P ec (bloomNum * 2), segmentSize P ec (bloomNum * 2 + 1)] := rfl

theorem segmentStart_add_size (h : ConfirmValues P) (ec : Ec) (n : Nat) :
    EbNRadioBT4.segmentStart P ec n + segmentSize P ec n = 248 ∧ 0 < segmentSize P ec n := by
  obtain ⟨_, hW, _, _⟩ := size_facts h ec
  unfold EbNRadioBT4.segmentStart segmentSize BF_SM
  simp only [ADV_N_LOG2]
  split_ifs <;> omega

/-! ## Filters -/

/-- The filter of `bloomNum`, whatever its bits. -/
structure IsFilter (ec : Ec) (bloomNum : Nat) (bloom : SegmentedBloomFilter P) : Prop where
  M : bloom.M = segmentSize P ec (bloomNum * 2) + segmentSize P ec (bloomNum * 2 + 1)
  K : bloom.K = 1
  sizes : bloom.segmentSizes = segmentSizes P ec bloomNum
  offsets : bloom.segmentOffsets = [0, segmentSize P ec (bloomNum * 2)]

theorem isFilter_segmentedBloom (ec : Ec) (bloomNum : Nat) (allOnes : Bool) :
    IsFilter ec bloomNum (segmentedBloom P ec bloomNum allOnes) where
  M := by
    have hsum : (segmentSizes P ec bloomNum).sum = segmentSize P ec (bloomNum * 2) + segmentSize P ec (bloomNum * 2 + 1) := by
      rw [segmentSizes_eq, List.sum_cons, List.sum_cons, List.sum_nil, Nat.add_zero]
    rw [← hsum]
    cases allOnes <;> rfl
  K := by cases allOnes <;> rfl
  sizes := rfl
  offsets := by
    have h : (segmentedBloom P ec bloomNum allOnes).segmentOffsets
        = SegmentedBloomFilter.offsetsFrom 0 (segmentSizes P ec bloomNum) := rfl
    rw [h, segmentSizes_eq]
    simp only [SegmentedBloomFilter.offsetsFrom, Nat.zero_add]

section
variable {ec : Ec} {bloomNum n : Nat} {bloom : SegmentedBloomFilter P}

theorem IsFilter.of_eq {bloom' : SegmentedBloomFilter P} (h : IsFilter ec bloomNum bloom) (hM : bloom'.M = bloom.M)
    (hK : bloom'.K = bloom.K) (hsizes : bloom'.segmentSizes = bloom.segmentSizes)
    (hoffsets : bloom'.segmentOffsets = bloom.segmentOffsets) : IsFilter ec bloomNum bloom' :=
  ⟨hM.trans h.M, hK.trans h.K, hsizes.trans h.sizes, hoffsets.trans h.offsets⟩

/-- Where the segment of advert `n` starts in its filter. -/
theorem IsFilter.segment (h : IsFilter ec (n / 2) bloom) :
    bloom.getSegmentSize (n % 2) = segmentSize P ec n ∧
      bloom.segmentOffset (n % 2) + segmentSize P ec n ≤ bloom.M := by
  rw [SegmentedBloomFilter.getSegmentSize, SegmentedBloomFilter.segmentOffset, h.sizes, h.offsets, h.M, segmentSizes_eq]
  rcases Nat.mod_two_eq_zero_or_one n with heven | hodd
  · have hn : n / 2 * 2 = n := by omega
    simp [heven, hn]
  · have hn : n / 2 * 2 + 1 = n := by omega
    simp [hodd, hn]

/-- All bits of a filter that starts with ones. -/
theorem get_segmentedBloom_true {j : Nat} (hj : j < (segmentedBloom P ec bloomNum true).M) :
    (segmentedBloom P ec bloomNum true).bits.get j = true := BitMap.get_setAll_true hj

end

end

end BT4

namespace EbNRadioBT4
open BT4

/-! ## The sender's layout -/

variable {P : Type} [FloatOps P] {ec : Ec} {r : EbNRadioBT4 P ec} {n : Nat}

theorem size_advertHeader : (r.advertHeader n).size = 248 := by
  unfold advertHeader
  split_ifs <;> exact BitMap.size_writeNumber _ _ _ _

theorem get_advertHeader (j : Nat) :
    (r.advertHeader n).get j
      = if n < RS_K P ec - 1 ∧ 9 + 8 * RS_W P ec ≤ j ∧ j < 9 + 8 * RS_W P ec + 8 * RS_W P ec then
          ((Mem.ofList r.dhPrevSymbols).add (n * RS_W P ec)).bit (j - (9 + 8 * RS_W P ec))
        else if 9 ≤ j ∧ j < 9 + 8 * RS_W P ec then (r.dhEncoder.getSymbol n).bit (j - 9)
        else if 1 ≤ j ∧ j < 9 then n.testBit (j - 1) else false := by
  unfold advertHeader
  by_cases hn : n < RS_K P ec - 1
  · simp only [hn, if_true, true_and, ADV_N_LOG2, BitMap.get_copyFrom, BitMap.get_writeNumber,
      BitMap.get_setAll_false_new, Nat.zero_add]
  · simp only [hn, if_false, false_and, ADV_N_LOG2, BitMap.get_copyFrom, BitMap.get_writeNumber,
      BitMap.get_setAll_false_new, Nat.zero_add]

variable {sha256 : List Byte → Digest} {rand : Nat → Nat}

theorem size_generateAdvert : (generateAdvert sha256 rand r n).1.size = 248 := size_advertHeader

/-- The radio with the Bloom filter that advert `n` takes its segment from. -/
theorem get_generateAdvert (hvalues : ConfirmValues P) (hbloom : IsFilter ec (n / 2) (updateBloom sha256 rand r n).advertBloom)
    (j : Nat) :
    (generateAdvert sha256 rand r n).1.get j
      = if segmentStart P ec n ≤ j ∧ j < 248 then
          (updateBloom sha256 rand r n).advertBloom.bits.get
            ((updateBloom sha256 rand r n).advertBloom.segmentOffset (n % 2) + (j - segmentStart P ec n))
        else ((updateBloom sha256 rand r n).advertHeader n).get j := by
  obtain ⟨hsize, _⟩ := hbloom.segment
  have hstart := (segmentStart_add_size hvalues ec n).1
  rw [BitMap.get_eq_bit]
  change (SegmentedBloomFilter.getSegment _ _ _ _).bit j = _
  rw [SegmentedBloomFilter.getSegment, BitMap.bit_copyTo, BF_B, hsize, hstart, ← BitMap.get_eq_bit]

end EbNRadioBT4

end Sddr.Radio
