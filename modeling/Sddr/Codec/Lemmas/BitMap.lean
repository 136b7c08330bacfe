import Sddr.Codec.BitMap

/-!
# Bit-level facts about BitMap

`bit_bitcpy` says what every bit of the destination is after a copy. Everything the radios read back from an
advertisement goes through it.
-/

namespace Sddr.Codec
open Sddr.Lib

variable {dest source : Mem} {destPos sourcePos off amount : Nat}

/-! ## Source bits -/

theorem getLsbD_twoBytes (source : Mem) (sourcePos : Nat) {off k : Nat} (hoff : off < 8) (hk : k < 8) :
    (twoBytes source sourcePos off).getLsbD k = source.bit (8 * sourcePos + off + k) := by
  simp only [twoBytes, BitVec.getLsbD_or, BitVec.getLsbD_ushiftRight, BitVec.getLsbD_shiftLeft, hk, decide_true,
    Bool.true_and]
  by_cases hfirst : off + k < 8
  · have hlow : k < 8 - off := by omega
    rw [Nat.add_assoc, Mem.bit_mul_add source sourcePos hfirst]
    simp [hlow]
  · have hhigh : ¬ k < 8 - off := by omega
    have hsplit : 8 * sourcePos + off + k = 8 * (sourcePos + 1) + (k - (8 - off)) := by omega
    have hpast : (source sourcePos).getLsbD (off + k) = false := BitVec.getLsbD_of_ge _ _ (by omega)
    rw [hsplit, Mem.bit_mul_add source (sourcePos + 1) (by omega)]
    simp [hhigh, hpast]

theorem getLsbD_sourceBits (source : Mem) (sourcePos : Nat) {off amount k : Nat} (hoff : off < 8)
    (hamount : amount ≤ 8) (hk : k < amount) :
    (sourceBits source sourcePos off amount).getLsbD k = source.bit (8 * sourcePos + off + k) := by
  unfold sourceBits
  split_ifs with hfit
  · rw [BitVec.getLsbD_ushiftRight, Nat.add_assoc, Mem.bit_mul_add source sourcePos (by omega)]
  · exact getLsbD_twoBytes source sourcePos hoff (by omega)

theorem getLsbD_lowMask (amount : Nat) {k : Nat} (hk : k < 8) : (lowMask amount).getLsbD k = decide (k < amount) := by
  rw [lowMask, BitVec.getLsbD_ofNat, Nat.one_shiftLeft, Nat.testBit_two_pow_sub_one]
  simp [hk]

/-- `b ^= ((b >> off) ^ v) & mask) << off` replaces `amount` bits of `b` from `off` on by those of `v`. -/
theorem getLsbD_merge (b v : Byte) (off amount : Nat) {k : Nat} (hk : k < 8) :
    (b ^^^ ((((b >>> off) ^^^ v) &&& lowMask amount) <<< off)).getLsbD k
      = if off ≤ k ∧ k < off + amount then v.getLsbD (k - off) else b.getLsbD k := by
  simp only [BitVec.getLsbD_xor, BitVec.getLsbD_shiftLeft, BitVec.getLsbD_and, BitVec.getLsbD_ushiftRight]
  rw [getLsbD_lowMask amount (by omega)]
  by_cases hlow : k < off
  · have : ¬ off ≤ k := by omega
    simp [hlow, this]
  · have hoff : off ≤ k := by omega
    have hback : off + (k - off) = k := by omega
    by_cases hin : k < off + amount
    · have : k - off < amount := by omega
      simp [hk, hlow, hoff, hin, this, hback]
    · have : ¬ k - off < amount := by omega
      simp [hin, this]

/-! ## The three parts of bitcpy -/

theorem bit_bitcpyStart (hoff : off < 8) (destBitOffset : Nat) (hamount : destBitOffset + amount ≤ 8) (j : Nat) :
    (bitcpyStart dest destPos destBitOffset source sourcePos off amount).bit j
      = if 8 * destPos + destBitOffset ≤ j ∧ j < 8 * destPos + destBitOffset + amount
        then source.bit (8 * sourcePos + off + (j - (8 * destPos + destBitOffset))) else dest.bit j := by
  rw [bitcpyStart, Mem.bit_store]
  by_cases hbyte : j / 8 = destPos
  · rw [if_pos hbyte, getLsbD_merge _ _ _ _ (by omega)]
    by_cases hin : destBitOffset ≤ j % 8 ∧ j % 8 < destBitOffset + amount
    · rw [if_pos hin, if_pos (by omega), getLsbD_sourceBits source sourcePos hoff (by omega) (by omega)]
      congr 1
      omega
    · rw [if_neg hin, if_neg (by omega), Mem.bit, hbyte]
  · rw [if_neg hbyte, if_neg (by omega)]

theorem bit_bitcpyBody (hoff : off < 8) (n : Nat) (dest : Mem) (destPos sourcePos j : Nat) :
    (bitcpyBody dest destPos source sourcePos off n).bit j
      = if 8 * destPos ≤ j ∧ j < 8 * destPos + 8 * n
        then source.bit (8 * sourcePos + off + (j - 8 * destPos)) else dest.bit j := by
  induction n generalizing dest destPos sourcePos with
  | zero => rw [bitcpyBody, if_neg (by omega)]
  | succ n ih =>
      rw [bitcpyBody, ih]
      by_cases hrest : 8 * (destPos + 1) ≤ j ∧ j < 8 * (destPos + 1) + 8 * n
      · rw [if_pos hrest, if_pos (by omega)]
        congr 1
        omega
      · rw [if_neg hrest, Mem.bit_store]
        by_cases hbyte : j / 8 = destPos
        · rw [if_pos hbyte, if_pos (by omega), getLsbD_twoBytes source sourcePos hoff (by omega)]
          congr 1
          omega
        · rw [if_neg hbyte, if_neg (by omega)]

theorem bit_bitcpyEnd (hoff : off < 8) {length : Nat} (hlength : length < 8) (j : Nat) :
    (bitcpyEnd dest destPos source sourcePos off length).bit j
      = if 8 * destPos ≤ j ∧ j < 8 * destPos + length
        then source.bit (8 * sourcePos + off + (j - 8 * destPos)) else dest.bit j := by
  unfold bitcpyEnd
  split_ifs with hzero hin hin
  · have hbyte : j / 8 = destPos := by omega
    have hmerge := getLsbD_merge (dest destPos) (sourceBits source sourcePos off length) 0 length
      (show j % 8 < 8 by omega)
    simp only [BitVec.ushiftRight_zero, BitVec.shiftLeft_zero] at hmerge
    rw [Mem.bit_store, if_pos hbyte, hmerge, if_pos (by omega),
      getLsbD_sourceBits source sourcePos hoff (by omega) (by omega)]
    congr 1
    omega
  · have hmerge := getLsbD_merge (dest destPos) (sourceBits source sourcePos off length) 0 length
      (show j % 8 < 8 by omega)
    simp only [BitVec.ushiftRight_zero, BitVec.shiftLeft_zero] at hmerge
    rw [Mem.bit_store, hmerge]
    by_cases hbyte : j / 8 = destPos
    · rw [if_pos hbyte, if_neg (by omega), Mem.bit, hbyte]
    · rw [if_neg hbyte]
  · omega
  · rfl

theorem bit_bitcpyAligned (hoff : off < 8) (length j : Nat) :
    (bitcpyAligned dest destPos source sourcePos off length).bit j
      = if 8 * destPos ≤ j ∧ j < 8 * destPos + length
        then source.bit (8 * sourcePos + off + (j - 8 * destPos)) else dest.bit j := by
  rw [bitcpyAligned, bit_bitcpyEnd hoff (by omega), bit_bitcpyBody hoff]
  by_cases hend : 8 * (destPos + length / 8) ≤ j ∧ j < 8 * (destPos + length / 8) + length % 8
  · rw [if_pos hend, if_pos (by omega)]
    congr 1
    omega
  · rw [if_neg hend]
    by_cases hbody : 8 * destPos ≤ j ∧ j < 8 * destPos + 8 * (length / 8)
    · rw [if_pos hbody, if_pos (by omega)]
    · rw [if_neg hbody, if_neg (by omega)]

/-- `bitcpy` moves `length` bits and leaves every other bit of the destination alone. -/
theorem bit_bitcpy (dest : Mem) (destOffset : Nat) (source : Mem) (sourceOffset length j : Nat) :
    (bitcpy dest destOffset source sourceOffset length).bit j
      = if destOffset ≤ j ∧ j < destOffset + length then source.bit (sourceOffset + (j - destOffset))
        else dest.bit j := by
  have hsource : 8 * (sourceOffset / 8) + sourceOffset % 8 = sourceOffset := by omega
  have hdest : 8 * (destOffset / 8) + destOffset % 8 = destOffset := by omega
  dsimp only [bitcpy]
  by_cases hzero : destOffset % 8 ≠ 0
  · rw [if_pos hzero]
    generalize hamount : min (8 - destOffset % 8) length = amount
    have hsource' : 8 * ((sourceOffset + amount) / 8) + (sourceOffset + amount) % 8 = sourceOffset + amount := by
      omega
    rw [bit_bitcpyAligned (by omega), bit_bitcpyStart (by omega) _ (by omega), hsource, hsource', hdest]
    by_cases hrest : 8 * (destOffset / 8 + 1) ≤ j ∧ j < 8 * (destOffset / 8 + 1) + (length - amount)
    · rw [if_pos hrest, if_pos (by omega)]
      congr 1
      omega
    · rw [if_neg hrest]
      by_cases hfirst : destOffset ≤ j ∧ j < destOffset + amount
      · rw [if_pos hfirst, if_pos (by omega)]
      · rw [if_neg hfirst, if_neg (by omega)]
  · have hbyte : 8 * (destOffset / 8) = destOffset := by omega
    rw [if_neg hzero, bit_bitcpyAligned (by omega), hsource, hbyte]

namespace BitMap

variable {b : BitMap}

/-! ## Single bits -/

theorem get_eq_bit (b : BitMap) (index : Nat) : b.get index = b.bits.bit index := by
  have hbyte : index >>> 3 = index / 8 := Nat.shiftRight_eq_div_pow index 3
  have hbit : index &&& 7 = index % 8 := Nat.and_two_pow_sub_one_eq_mod index 3
  rw [get, hbyte, hbit, Mem.bit]

theorem getLsbD_single (value : Bool) (n : Nat) {k : Nat} (hk : k < 8) :
    (BitVec.ofNat 8 (value.toNat <<< n)).getLsbD k = (value && decide (k = n)) := by
  rw [BitVec.getLsbD_ofNat]
  cases value
  · simp
  · rw [Bool.toNat_true, Nat.one_shiftLeft, Nat.testBit_two_pow]
    simp [hk, eq_comm]

theorem bit_setTo (b : BitMap) (index : Nat) (value : Bool) (j : Nat) :
    (b.setTo index value).bits.bit j = if j = index then value else b.bits.bit j := by
  have hbyte : index >>> 3 = index / 8 := Nat.shiftRight_eq_div_pow index 3
  have hbit : index &&& 7 = index % 8 := Nat.and_two_pow_sub_one_eq_mod index 3
  have hk : j % 8 < 8 := by omega
  have hmask := getLsbD_single true (index % 8) hk
  rw [Bool.toNat_true] at hmask
  simp only [setTo, hbyte, hbit, Mem.bit_store]
  by_cases hj : j / 8 = index / 8
  · rw [if_pos hj, BitVec.getLsbD_or, BitVec.getLsbD_and, BitVec.getLsbD_not, hmask, getLsbD_single _ _ hk]
    by_cases heq : j = index
    · simp [heq]
    · have hne : j % 8 ≠ index % 8 := by omega
      simp [heq, hne, hk, Mem.bit, hj]
  · have hne : j ≠ index := by rintro rfl; exact hj rfl
    rw [if_neg hj, if_neg hne]

theorem bit_set (b : BitMap) (index j : Nat) :
    (b.set index).bits.bit j = if j = index then true else b.bits.bit j := by
  have hbyte : index >>> 3 = index / 8 := Nat.shiftRight_eq_div_pow index 3
  have hbit : index &&& 7 = index % 8 := Nat.and_two_pow_sub_one_eq_mod index 3
  have hk : j % 8 < 8 := by omega
  have hmask := getLsbD_single true (index % 8) hk
  rw [Bool.toNat_true] at hmask
  simp only [set, hbyte, hbit, Mem.bit_store]
  by_cases hj : j / 8 = index / 8
  · rw [if_pos hj, BitVec.getLsbD_or, hmask]
    by_cases heq : j = index
    · simp [heq]
    · have hne : j % 8 ≠ index % 8 := by omega
      simp [heq, hne, Mem.bit, hj]
  · have hne : j ≠ index := by rintro rfl; exact hj rfl
    rw [if_neg hj, if_neg hne]

theorem get_set (b : BitMap) (index j : Nat) : (b.set index).get j = (decide (j = index) || b.get j) := by
  rw [get_eq_bit, get_eq_bit, bit_set]
  split_ifs with h <;> simp [h]

@[simp] theorem size_set (b : BitMap) (index : Nat) : (b.set index).size = b.size := rfl
@[simp] theorem size_setTo (b : BitMap) (index : Nat) (value : Bool) : (b.setTo index value).size = b.size := rfl
@[simp] theorem size_copyFrom (b : BitMap) (source : Mem) (sourceOffset offset length : Nat) :
    (b.copyFrom source sourceOffset offset length).size = b.size := rfl

@[simp] theorem get_new (size j : Nat) : (new size).get j = false := by
  rw [get_eq_bit, new, Mem.bit_zero]

@[simp] theorem get_setAll_false_new (size j : Nat) : ((new size).setAll false).get j = false := by
  rw [get_eq_bit, setAll, new]
  unfold Mem.bit Mem.copy
  split_ifs <;> simp_all

theorem get_setByte (b : BitMap) (index : Nat) (value : Byte) (j : Nat) :
    (b.setByte index value).get j = if j / 8 = index then value.getLsbD (j % 8) else b.get j := by
  rw [get_eq_bit, get_eq_bit, setByte, Mem.bit_store]

/-! ## Copies and numbers -/

theorem get_copyFrom (b : BitMap) (source : Mem) (sourceOffset offset length j : Nat) :
    (b.copyFrom source sourceOffset offset length).get j
      = if offset ≤ j ∧ j < offset + length then source.bit (sourceOffset + (j - offset)) else b.get j := by
  rw [get_eq_bit, get_eq_bit, copyFrom, bit_bitcpy]

theorem bit_copyTo (b : BitMap) (dest : Mem) (destOffset offset length j : Nat) :
    (b.copyTo dest destOffset offset length).bit j
      = if destOffset ≤ j ∧ j < destOffset + length then b.get (offset + (j - destOffset)) else dest.bit j := by
  rw [copyTo, bit_bitcpy, get_eq_bit]

theorem get_ofMem {size j : Nat} (bits : Mem) (hj : j < size) : (ofMem size bits).get j = bits.bit j := by
  rw [get_eq_bit, ofMem, Mem.bit_copy _ _ (by omega)]

/-- The bytes of a map hold its bits. -/
theorem get_ofMem_toBytes {j : Nat} (hj : j < b.size) : (ofMem b.size (Mem.ofList b.toBytes)).get j = b.get j := by
  rw [get_ofMem _ hj, toBytes, Mem.bit_ofList_take (by unfold sizeBytes; omega), get_eq_bit]

theorem toBytes_congr {b' : BitMap} (hsize : b.size = b'.size) (h : ∀ j < 8 * b.sizeBytes, b.get j = b'.get j) :
    b.toBytes = b'.toBytes := by
  have hbytes : b'.sizeBytes = b.sizeBytes := by unfold sizeBytes; rw [hsize]
  rw [toBytes, toBytes, hbytes]
  exact Mem.take_eq_of_bits fun j hj => by rw [← get_eq_bit, ← get_eq_bit, h j hj]

/-- Maps of one size with the same bytes have the same bits. -/
theorem get_congr {b' : BitMap} (hsize : b.size = b'.size) (h : b.toBytes = b'.toBytes) {j : Nat} (hj : j < b.size) :
    b.get j = b'.get j := by
  rw [← get_ofMem_toBytes hj, h, hsize]
  exact get_ofMem_toBytes (hsize ▸ hj)

theorem get_setAll_true {j : Nat} (hj : j < b.size) : (b.setAll true).get j = true := by
  have hones : ∀ k < 8, (0xFF : Byte).getLsbD k = true := by decide
  rw [get_eq_bit, setAll, Mem.bit_copy _ _ (by omega), Mem.bit, if_pos rfl]
  exact hones _ (by omega)

theorem get_writeNumber (b : BitMap) (offset value n j : Nat) :
    (b.writeNumber offset value n).get j
      = if offset ≤ j ∧ j < offset + n then value.testBit (j - offset) else b.get j := by
  induction n with
  | zero => rw [writeNumber, List.range_zero, List.foldl_nil, if_neg (by omega)]
  | succ n ih =>
      rw [writeNumber, List.range_succ, List.foldl_append, ← writeNumber, List.foldl_cons, List.foldl_nil,
        get_eq_bit, bit_setTo, ← get_eq_bit, ih]
      by_cases hlast : j = n + offset
      · have hn : j - offset = n := by omega
        rw [if_pos hlast, if_pos (by omega), hn, Nat.testBit, Nat.and_comm]
        simp [Nat.one_and_eq_mod_two, Bool.beq_eq_decide_eq]
      · rw [if_neg hlast]
        by_cases hin : offset ≤ j ∧ j < offset + n
        · rw [if_pos hin, if_pos (by omega)]
        · rw [if_neg hin, if_neg (by omega)]

@[simp] theorem size_writeNumber (b : BitMap) (offset value n : Nat) : (b.writeNumber offset value n).size = b.size := by
  induction n with
  | zero => rfl
  | succ n ih =>
      rw [writeNumber, List.range_succ, List.foldl_append]
      exact ih

/-- A number that fits in `n` bits is read back from where it was written. -/
theorem readNumber_eq {offset value n : Nat} (hvalue : value < 2 ^ n)
    (hbits : ∀ i < n, b.get (i + offset) = value.testBit i) : b.readNumber offset n = value :=
  natOfBits_testBit hvalue hbits

end BitMap

end Sddr.Codec
