import Mathlib.Tactic.IntervalCases
import Sddr.Codec.SipHash

/-! # Both implementations of SipHash, part by part -/

namespace Sddr.Codec
open Sddr.Lib

/-! ## SipHash.cpp -/

namespace SipHash

theorem rotl64_eq (u : BitVec 64) {s : Nat} (h : s < 64) : rotl64 u s = u.rotateLeft s :=
  rotateLeft_eq_or u h

theorem sipround_eq (v : SipState) : sipround v = v.round := by
  simp (disch := decide) only [sipround, rotl64_eq]
  rfl

theorem sipcompress2_eq (v : SipState) (m : BitVec 64) : sipcompress2 v m = v.compress 2 m := by
  rw [sipcompress2, sipround_eq, sipround_eq]
  rfl

theorem get64le_eq (data : Mem) (ix : Nat) : get64le data ix = word64 ((data.add (8 * ix)).take 8) := by
  rw [get64le, foldl_word64, Nat.mul_comm]

theorem siplast_eq (data : Mem) {q r : Nat} (hr : r < 8) :
    siplast data (8 * q + r) = word64 ((data.add (8 * q)).take r) ||| BitVec.ofNat 64 (8 * q + r) <<< 56 := by
  have hmod : (8 * q + r) % 8 = r := by omega
  have hdiv : (8 * q + r) / 8 * 8 = 8 * q := by omega
  have hsize : BitVec.ofNat 64 ((8 * q + r) % 256) <<< 56 = BitVec.ofNat 64 (8 * q + r) <<< 56 := by
    have hlow : BitVec.ofNat 8 ((8 * q + r) % 256) = BitVec.ofNat 8 (8 * q + r) :=
      BitVec.eq_of_toNat_eq (Nat.mod_mod _ _)
    rw [← setWidth_shiftLeft_last, hlow, setWidth_shiftLeft_last]
  rw [siplast, hmod, hdiv, hsize, ← foldl_word64]
  rfl

theorem put64le_eq (v : BitVec 64) (out : Mem) :
    put64le v out = out.copy (Mem.ofList (littleEndian 8 v.toNat)) 8 := by
  rw [put64le, Mem.foldl_store out fun i => (v >>> (i * 8)).setWidth 8, littleEndian_eq_map]
  funext i
  unfold Mem.copy
  split_ifs with hi
  · have hbyte := @Mem.ofList_take (fun i => BitVec.ofNat 8 (v.toNat / 256 ^ i)) 8 i hi
    refine Eq.trans (BitVec.eq_of_toNat_eq ?_) hbyte.symm
    rw [BitVec.toNat_setWidth, BitVec.toNat_ushiftRight, Nat.shiftRight_eq_div_pow, Nat.mul_comm, Nat.pow_mul,
      BitVec.toNat_ofNat]
  · rfl

theorem siphash24_spec (key data : Mem) (size : Nat) (out : Mem) :
    siphash24 key data size out
      = out.copy (Mem.ofList (littleEndian 8 (sipHash 2 4 (key.take 16) (data.take size)).toNat)) 8 := by
  obtain ⟨q, r, hr, rfl⟩ : ∃ q r, r < 8 ∧ size = 8 * q + r :=
    ⟨size / 8, size % 8, Nat.mod_lt _ (by decide), (Nat.div_add_mod size 8).symm⟩
  have hdiv : (8 * q + r) / 8 = q := by omega
  rw [sipHash_take 2 4 key data hr, siphash24, put64le_eq, siplast_eq data hr, hdiv]
  simp only [get64le_eq, sipcompress2_eq, sipround_eq, Nat.mul_zero, Nat.mul_one, Mem.add_zero]
  rfl

end SipHash

/-! ## csiphash.c -/

namespace CSipHash

theorem rotate_eq (x : BitVec 64) {b : Nat} (h : b < 64) : rotate x b = x.rotateLeft b :=
  rotateLeft_eq_or x h

theorem doubleRound_eq (v : SipState) : doubleRound v = v.round.round := by
  simp (disch := decide) only [doubleRound, halfRound, rotate_eq]
  rfl

theorem readWords_eq (q : Nat) {r : Nat} (hr : r < 8) (input : Mem) (v : SipState) :
    readWords input (8 * q + r) v = (input.add (8 * q), r,
      (List.range q).foldl (fun v i => v.compress 2 (word64 ((input.add (8 * i)).take 8))) v) := by
  induction q generalizing input v with
  | zero =>
      rw [readWords, if_neg (by omega), Nat.mul_zero, Nat.zero_add, Mem.add_zero]
      rfl
  | succ q ih =>
      have hnext : 8 * (q + 1) + r - 8 = 8 * q + r := by omega
      rw [readWords, if_pos (by omega), hnext, ih, List.range_succ_eq_map, List.foldl_cons, List.foldl_map]
      simp only [doubleRound_eq, Mem.add_add, ← Nat.mul_succ, Nat.add_comm 8]
      rfl

theorem readRest_take (m : Mem) {r : Nat} (hr : r < 8) :
    (readRest m r fun _ => 0).take 8 = m.take r ++ List.replicate (8 - r) 0 := by
  interval_cases r <;> simp only [readRest] <;> rfl

theorem siphash24_spec (src : Mem) (srcSz : Nat) (key : Mem) :
    siphash24 src srcSz key = sipHash 2 4 (key.take 16) (src.take srcSz) := by
  obtain ⟨q, r, hr, rfl⟩ : ∃ q r, r < 8 ∧ srcSz = 8 * q + r :=
    ⟨srcSz / 8, srcSz % 8, Nat.mod_lt _ (by decide), (Nat.div_add_mod srcSz 8).symm⟩
  rw [sipHash_take 2 4 key src hr, siphash24]
  simp only [readWords_eq q hr, doubleRound_eq, le64toh, readRest_take _ hr, word64_zeros,
    BitVec.or_comm (BitVec.ofNat 64 (8 * q + r) <<< 56)]
  rw [← BitVec.xor_assoc]
  rfl

end CSipHash

end Sddr.Codec
