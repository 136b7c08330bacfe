import Sddr.Codec.Lemmas.Bloom
import Sddr.Radio.ECDH
import Sddr.Radio.EbNRadio

/-! # Filters and prefixes that all radios use -/

namespace Sddr.Radio
open Sddr.Lib Sddr.Codec Sddr.Device

section
variable {P D : Type} [FloatOps P] [IsDevice D P]

theorem fillBloomFilter_grows (sha256 : List Byte → Digest) (rand : Nat → Nat) (r : EbNRadio P D)
    (bloom : BloomFilter P) (pre : List Byte) (includePassive : Bool) :
    bloom.Grows (fillBloomFilter sha256 rand r bloom pre includePassive) :=
  ((BloomFilter.foldl_add_grows sha256 pre _ bloom).trans (BloomFilter.foldl_add_grows sha256 pre _ _)).trans
    (BloomFilter.addRandom_grows _ rand _)

theorem fillBloomFilter_holds {sha256 : List Byte → Digest} (rand : Nat → Nat) {r : EbNRadio P D}
    (bloom : BloomFilter P) (pre : List Byte) (includePassive : Bool) {v : LinkValue}
    (hv : v ∈ r.advertisedSet.take (maxAdvert r.confirmScheme.type)) :
    (fillBloomFilter sha256 rand r bloom pre includePassive).Holds (sha256 (pre ++ v)) :=
  (BloomFilter.addRandom_grows _ rand _).holds
    ((BloomFilter.foldl_add_grows sha256 pre _ _).holds (BloomFilter.foldl_add_holds bloom hv))

/-- Without link values a filter is filled at random. -/
theorem fillBloomFilter_random {r : EbNRadio P D} (hscheme : r.confirmScheme.type.hasPassive = false)
    (hset : r.advertisedSet = []) (sha256 : List Byte → Digest) (rand : Nat → Nat) (bloom : BloomFilter P)
    (pre : List Byte) (includePassive : Bool) :
    fillBloomFilter sha256 rand r bloom pre includePassive = bloom.addRandom rand BF_N := by
  unfold fillBloomFilter passiveValues maxAdvert
  dsimp only
  rw [hscheme, hset, Bool.and_false]
  rfl

end

/-! ## Prefixes -/

theorem get_hashPrefix (numBits num : Nat) (publicX : Mem) (keySize j : Nat) :
    (hashPrefix numBits num publicX keySize).get j
      = if numBits ≤ j ∧ j < numBits + keySize then publicX.bit (j - numBits)
        else decide (j < numBits) && num.testBit j := by
  rw [hashPrefix, BitMap.get_copyFrom, BitMap.get_writeNumber, Nat.zero_add, BitMap.get_new]
  split_ifs with hkey hnum
  · rfl
  · rw [Nat.sub_zero, decide_eq_true (by omega), Bool.true_and]
  · rw [decide_eq_false (by omega), Bool.false_and]

/-- The prefix depends on the first `keySize` bits of the key only. -/
theorem hashPrefix_congr (numBits num : Nat) {publicX publicX' : Mem} {keySize : Nat}
    (h : ∀ j < keySize, publicX.bit j = publicX'.bit j) :
    (hashPrefix numBits num publicX keySize).toBytes = (hashPrefix numBits num publicX' keySize).toBytes := by
  refine BitMap.toBytes_congr rfl fun j _ => ?_
  rw [get_hashPrefix, get_hashPrefix]
  split_ifs with hkey
  · exact h _ (by omega)
  · rfl

@[simp] theorem size_hashPrefix (numBits num : Nat) (publicX : Mem) (keySize : Nat) :
    (hashPrefix numBits num publicX keySize).size = numBits + keySize := by
  rw [hashPrefix, BitMap.size_copyFrom, BitMap.size_writeNumber]
  rfl

/-- The prefix determines the number and the key. -/
theorem hashPrefix_inj {numBits num num' keySize : Nat} {publicX publicX' : Mem} (hnum : num < 2 ^ numBits)
    (hnum' : num' < 2 ^ numBits)
    (h : (hashPrefix numBits num publicX keySize).toBytes = (hashPrefix numBits num' publicX' keySize).toBytes) :
    num = num' ∧ ∀ j < keySize, publicX.bit j = publicX'.bit j := by
  have hget : ∀ j < numBits + keySize, (hashPrefix numBits num publicX keySize).get j
      = (hashPrefix numBits num' publicX' keySize).get j := by
    intro j hj
    exact BitMap.get_congr (by rw [size_hashPrefix, size_hashPrefix]) h (by rwa [size_hashPrefix])
  constructor
  · apply Nat.eq_of_testBit_eq
    intro j
    by_cases hj : j < numBits
    · have hbit := hget j (by omega)
      rw [get_hashPrefix, get_hashPrefix, if_neg (by omega), if_neg (by omega)] at hbit
      simpa [hj] using hbit
    · have hpow : 2 ^ numBits ≤ 2 ^ j := Nat.pow_le_pow_right (by omega) (by omega)
      rw [Nat.testBit_lt_two_pow (Nat.lt_of_lt_of_le hnum hpow), Nat.testBit_lt_two_pow (Nat.lt_of_lt_of_le hnum' hpow)]
  · intro j hj
    have hbit := hget (numBits + j) (by omega)
    rwa [get_hashPrefix, get_hashPrefix, if_pos (by omega), if_pos (by omega), Nat.add_sub_cancel_left] at hbit

/-- A number of eight bits takes one byte of the prefix. -/
theorem toBytes_hashPrefix (num : Nat) (publicX : Mem) (n : Nat) :
    (hashPrefix 8 num publicX (8 * n)).toBytes = BitVec.ofNat 8 num :: publicX.take n := by
  have hget := get_hashPrefix 8 num publicX (8 * n)
  have hsize : (hashPrefix 8 num publicX (8 * n)).sizeBytes = n + 1 := by
    rw [BitMap.sizeBytes, size_hashPrefix]
    omega
  rw [BitMap.toBytes, hsize, Mem.take_succ]
  congr 1
  · refine BitVec.eq_of_getLsbD_eq fun k hk => ?_
    have hbit := hget k
    rw [BitMap.get_eq_bit, if_neg (by omega), ← Nat.zero_add k, ← Nat.mul_zero 8, Mem.bit_mul_add _ 0 hk] at hbit
    rw [hbit, BitVec.getLsbD_ofNat]
    simp
  · refine Mem.take_eq_of_bits fun j hj => ?_
    rw [Mem.bit_add, ← BitMap.get_eq_bit, hget, if_pos (by omega)]
    congr 1
    omega

/-- Of the supported key sizes the code uses that they are whole bytes and at most 384. -/
theorem Ec.keySize_facts (ec : Ec) : 8 * (ec.keySize / 8) = ec.keySize ∧ 192 ≤ ec.keySize ∧ ec.keySize ≤ 384 := by
  have h := ec.supported
  simp only [supportedKeySizes, List.mem_cons, List.not_mem_nil, or_false] at h
  omega

end Sddr.Radio
