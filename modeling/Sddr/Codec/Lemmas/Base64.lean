import Mathlib.Tactic.IntervalCases
import Sddr.Codec.Base64

/-!
# Base64

Six bits of a value after the other: the tables are inverse on them, and the decoder puts them back where the encoder took
them from.
-/

namespace Sddr.Codec.Base64
open Sddr.Lib

/-! ## Tables -/

theorem decodeChar_encodeTable :
    ∀ i : Fin 64, encodeTable[i.val]?.bind decodeChar = some (BitVec.ofNat 32 i.val) := by
  decide +kernel

theorem encodeChar_spec {index : BitVec 32} (h : index.toNat < 64) :
    ∃ c ∈ encodeTable, encodeChar index = some c ∧ decodeChar c = some index := by
  obtain ⟨c, hencode, hdecode⟩ := Option.bind_eq_some_iff.mp (decodeChar_encodeTable ⟨index.toNat, h⟩)
  refine ⟨c, List.mem_of_getElem? hencode, hencode, hdecode.trans (congrArg some (BitVec.eq_of_toNat_eq ?_))⟩
  rw [BitVec.toNat_ofNat, Nat.mod_eq_of_lt index.isLt]

theorem padding_not_mem : '=' ∉ encodeTable := by decide

/-! ## Six bits -/

theorem getLsbD_mask (j : Nat) : (0x3F : BitVec 32).getLsbD j = decide (j < 6) := by
  rw [show (0x3F : BitVec 32) = BitVec.ofNat 32 (2 ^ 6 - 1) from rfl, BitVec.getLsbD_ofNat, Nat.testBit_two_pow_sub_one]
  by_cases hj : j < 6
  · simp [hj, show j < 32 by omega]
  · simp [hj]

theorem mask_lt (value : BitVec 32) : (value &&& 0x3F).toNat < 64 := by
  rw [BitVec.toNat_and]
  exact Nat.lt_of_le_of_lt Nat.and_le_right (by decide)

/-- The six bits from position `k` on, below those above them. -/
theorem join_bits (value : BitVec 32) (k : Nat) :
    value >>> (k + 6) <<< (k + 6) ||| (value >>> k &&& 0x3F) <<< k = value >>> k <<< k := by
  apply BitVec.eq_of_getLsbD_eq
  intro i hi
  simp only [BitVec.getLsbD_or, BitVec.getLsbD_shiftLeft, BitVec.getLsbD_ushiftRight, BitVec.getLsbD_and, getLsbD_mask]
  by_cases hk : i < k
  · simp [hk, show i < k + 6 by omega]
  · by_cases hk6 : i < k + 6
    · simp [hk, hk6, hi, show k + (i - k) = i by omega, show i - k < 6 by omega]
    · simp [hk, hk6, hi, show k + (i - k) = i by omega, show k + 6 + (i - (k + 6)) = i by omega, show ¬ i - k < 6 by omega]

/-- The bits below `k` do not reach the byte at position `m`. -/
theorem shiftRight_join (value : BitVec 32) {k m : Nat} (hkm : k ≤ m) : value >>> k <<< k >>> m = value >>> m := by
  apply BitVec.eq_of_getLsbD_eq
  intro i hi
  simp only [BitVec.getLsbD_shiftLeft, BitVec.getLsbD_ushiftRight]
  by_cases hm : m + i < 32
  · simp [hm, show ¬ m + i < k by omega, show k + (m + i - k) = m + i by omega]
  · simp [hm, BitVec.getLsbD_of_ge value (m + i) (by omega)]

/-! ## A value -/

/-- The value of three bytes. -/
def valueOf (a b c : Byte) : BitVec 32 := a.setWidth 32 <<< 16 ||| b.setWidth 32 <<< 8 ||| c.setWidth 32

/-- It has them in their places, and its upper byte is zero. -/
theorem valueOf_bytes (a b c : Byte) :
    (valueOf a b c >>> 16).setWidth 8 = a ∧ (valueOf a b c >>> 8).setWidth 8 = b ∧ (valueOf a b c).setWidth 8 = c ∧
      (valueOf a b c >>> 18).toNat < 64 := by
  refine ⟨?_, ?_, ?_, ?_⟩
  · ext i hi
    simp [valueOf, show 16 + i < 32 by omega, show i < 32 by omega, BitVec.getLsbD_of_ge b (16 + i - 8) (by omega),
      BitVec.getLsbD_of_ge c (16 + i) (by omega), BitVec.getLsbD_eq_getElem hi]
  · ext i hi
    simp [valueOf, show 8 + i < 32 by omega, show i < 32 by omega, show 8 + i < 16 by omega,
      BitVec.getLsbD_eq_getElem hi]
  · ext i hi
    simp [valueOf]
  · have hshift : ∀ (d : Byte) (s : Nat), s ≤ 16 → (d.setWidth 32 <<< s : BitVec 32).toNat < 2 ^ 24 := by
      intro d s hs
      have hd : d.toNat * 2 ^ s < 2 ^ 8 * 2 ^ s := Nat.mul_lt_mul_of_pos_right d.isLt (Nat.two_pow_pos s)
      have hpow : 2 ^ 8 * 2 ^ s ≤ 2 ^ 24 := by
        rw [← Nat.pow_add]
        exact Nat.pow_le_pow_right (by decide) (by omega)
      rw [BitVec.toNat_shiftLeft, BitVec.toNat_setWidth, Nat.mod_eq_of_lt (Nat.lt_trans d.isLt (by decide)),
        Nat.shiftLeft_eq]
      exact Nat.lt_of_le_of_lt (Nat.mod_le _ _) (Nat.lt_of_lt_of_le hd hpow)
    have hc := hshift c 0 (by decide)
    rw [BitVec.shiftLeft_zero] at hc
    have hvalue : (valueOf a b c).toNat < 2 ^ 24 := by
      rw [valueOf, BitVec.toNat_or, BitVec.toNat_or]
      exact Nat.or_lt_two_pow (Nat.or_lt_two_pow (hshift a 16 (by decide)) (hshift b 8 (by decide))) hc
    rw [BitVec.toNat_ushiftRight, Nat.shiftRight_eq_div_pow]
    omega

/-! ## Blocks -/

theorem ofList_add (input : List Byte) (n : Nat) : (Mem.ofList input).add n = Mem.ofList (input.drop n) := by
  funext i
  simp [Mem.add, Mem.ofList, List.getD_eq_getElem?_getD]

theorem encodeBlocks_succ (a b c : Byte) (input : List Byte) (k : Nat) :
    encodeBlocks (Mem.ofList (a :: b :: c :: input)) (k + 1) = (do
      let c0 ← encodeChar (valueOf a b c >>> 18)
      let c1 ← encodeChar (valueOf a b c >>> 12 &&& 0x3F)
      let c2 ← encodeChar (valueOf a b c >>> 6 &&& 0x3F)
      let c3 ← encodeChar (valueOf a b c &&& 0x3F)
      let output ← encodeBlocks (Mem.ofList input) k
      return [c0, c1, c2, c3] ++ output) := by
  rw [encodeBlocks, ofList_add]
  rfl

/-- Blocks are encoded into characters of the alphabet, which are decoded to them. -/
theorem blocks_round (k : Nat) (input : List Byte) (hinput : 3 * k ≤ input.length) :
    ∃ chars, encodeBlocks (Mem.ofList input) k = some chars ∧ chars.length = 4 * k ∧ (∀ c ∈ chars, c ∈ encodeTable) ∧
      ∀ rest, decodeBlocks k (chars ++ rest) = some (input.take (3 * k), rest) := by
  induction k generalizing input with
  | zero => exact ⟨[], rfl, rfl, fun c hc => absurd hc List.not_mem_nil, fun rest => rfl⟩
  | succ k ih =>
      match input, hinput with
      | a :: b :: c :: input, hinput =>
          obtain ⟨chars, hencode, hlength, halphabet, hdecode⟩ := ih input (by simp at hinput; omega)
          obtain ⟨ha, hb, hc, hlt⟩ := valueOf_bytes a b c
          have hcons := encodeBlocks_succ a b c input k
          generalize valueOf a b c = value at *
          obtain ⟨c0, hc0, hencode0, hdecode0⟩ := encodeChar_spec hlt
          obtain ⟨c1, hc1, hencode1, hdecode1⟩ := encodeChar_spec (mask_lt (value >>> 12))
          obtain ⟨c2, hc2, hencode2, hdecode2⟩ := encodeChar_spec (mask_lt (value >>> 6))
          obtain ⟨c3, hc3, hencode3, hdecode3⟩ := encodeChar_spec (mask_lt value)
          have hvalue : value >>> 18 <<< 18 ||| (value >>> 12 &&& 0x3F) <<< 12 ||| (value >>> 6 &&& 0x3F) <<< 6
              ||| (value &&& 0x3F) = value := by
            have hlast := join_bits value 0
            rw [BitVec.ushiftRight_zero, BitVec.shiftLeft_zero, BitVec.shiftLeft_zero] at hlast
            rw [join_bits value 12, join_bits value 6, hlast]
          refine ⟨[c0, c1, c2, c3] ++ chars, ?_, by simp [hlength]; omega, ?_, fun rest => ?_⟩
          · rw [hcons, hencode0, hencode1, hencode2, hencode3, hencode]
            rfl
          · simp only [List.forall_mem_append, List.forall_mem_cons]
            exact ⟨⟨hc0, hc1, hc2, hc3, fun _ hnil => by cases hnil⟩, halphabet⟩
          · simp only [List.cons_append, List.nil_append, decodeBlocks, hdecode0, hdecode1, hdecode2, hdecode3,
              hdecode rest, Option.bind_eq_bind, Option.bind_some, hvalue, ha, hb, hc]
            rfl

/-! ## Tails -/

section
variable {c0 c1 c2 : Char} {index0 index1 index2 : BitVec 32} (h0 : decodeChar c0 = some index0)
  (h1 : decodeChar c1 = some index1)
include h0 h1

theorem decodeEnd_two (rest : List Char) :
    decodeEnd 2 (c0 :: c1 :: rest) = some [((index0 <<< 18 ||| index1 <<< 12) >>> 16).setWidth 8] := by
  simp only [decodeEnd, if_pos, h0, h1, Option.bind_eq_bind, Option.bind_some]
  rfl

theorem decodeEnd_three (h2 : decodeChar c2 = some index2) (rest : List Char) :
    decodeEnd 3 (c0 :: c1 :: c2 :: rest)
      = some [((index0 <<< 18 ||| index1 <<< 12 ||| index2 <<< 6) >>> 16).setWidth 8,
          ((index0 <<< 18 ||| index1 <<< 12 ||| index2 <<< 6) >>> 8).setWidth 8] := by
  simp only [decodeEnd, if_neg (by decide : ¬ 3 = 2), if_pos, h0, h1, h2, Option.bind_eq_bind, Option.bind_some]
  rfl

end

theorem end_one_round (a : Byte) :
    ∃ c0 ∈ encodeTable, ∃ c1 ∈ encodeTable, encodeEnd (Mem.ofList [a]) 1 = some [c0, c1, '=', '='] ∧
      decodeEnd 2 [c0, c1, '=', '='] = some [a] := by
  obtain ⟨ha, -, -, hlt⟩ := valueOf_bytes a 0 0
  have hvalue : valueOf a 0 0 = a.setWidth 32 <<< 16 := by simp [valueOf]
  have hencode : encodeEnd (Mem.ofList [a]) 1 = (do
      let c0 ← encodeChar (valueOf a 0 0 >>> 18)
      let c1 ← encodeChar (valueOf a 0 0 >>> 12 &&& 0x3F)
      return [c0, c1, '=', '=']) := by
    rw [hvalue]
    rfl
  obtain ⟨c0, hc0, hencode0, hdecode0⟩ := encodeChar_spec hlt
  obtain ⟨c1, hc1, hencode1, hdecode1⟩ := encodeChar_spec (mask_lt (valueOf a 0 0 >>> 12))
  refine ⟨c0, hc0, c1, hc1, ?_, ?_⟩
  · rw [hencode, hencode0, hencode1]
    rfl
  · rw [decodeEnd_two hdecode0 hdecode1, join_bits _ 12, shiftRight_join _ (by decide), ha]

theorem end_two_round (a b : Byte) :
    ∃ c0 ∈ encodeTable, ∃ c1 ∈ encodeTable, ∃ c2 ∈ encodeTable,
      encodeEnd (Mem.ofList [a, b]) 2 = some [c0, c1, c2, '='] ∧ decodeEnd 3 [c0, c1, c2, '='] = some [a, b] := by
  obtain ⟨ha, hb, -, hlt⟩ := valueOf_bytes a b 0
  have hvalue : valueOf a b 0 = a.setWidth 32 <<< 16 ||| b.setWidth 32 <<< 8 := by simp [valueOf]
  have hencode : encodeEnd (Mem.ofList [a, b]) 2 = (do
      let c0 ← encodeChar (valueOf a b 0 >>> 18)
      let c1 ← encodeChar (valueOf a b 0 >>> 12 &&& 0x3F)
      let c2 ← encodeChar (valueOf a b 0 >>> 6 &&& 0x3F)
      return [c0, c1, c2, '=']) := by
    rw [hvalue]
    rfl
  obtain ⟨c0, hc0, hencode0, hdecode0⟩ := encodeChar_spec hlt
  obtain ⟨c1, hc1, hencode1, hdecode1⟩ := encodeChar_spec (mask_lt (valueOf a b 0 >>> 12))
  obtain ⟨c2, hc2, hencode2, hdecode2⟩ := encodeChar_spec (mask_lt (valueOf a b 0 >>> 6))
  refine ⟨c0, hc0, c1, hc1, c2, hc2, ?_, ?_⟩
  · rw [hencode, hencode0, hencode1, hencode2]
    rfl
  · rw [decodeEnd_three hdecode0 hdecode1 hdecode2, join_bits _ 12, join_bits _ 6, shiftRight_join _ (by decide),
      shiftRight_join _ (by decide), ha, hb]

theorem end_round (tail : List Byte) (htail : tail.length < 3) :
    ∃ symbols pad, (∀ c ∈ symbols, c ∈ encodeTable) ∧
      encodeEnd (Mem.ofList tail) tail.length = some (symbols ++ List.replicate pad '=') ∧
      pad = (3 - tail.length) % 3 ∧ symbols.length + pad = (tail.length + 2) / 3 * 4 ∧
      decodeEnd (if 2 ≤ pad then 2 else if 1 ≤ pad then 3 else 0) (symbols ++ List.replicate pad '=') = some tail := by
  match tail, htail with
  | [], _ => exact ⟨[], 0, fun c hc => absurd hc List.not_mem_nil, rfl, rfl, rfl, rfl⟩
  | [a], _ =>
      obtain ⟨c0, hc0, c1, hc1, hencode, hdecode⟩ := end_one_round a
      exact ⟨[c0, c1], 2, List.forall_mem_cons.mpr ⟨hc0, List.forall_mem_singleton.mpr hc1⟩, hencode, rfl, by simp, hdecode⟩
  | [a, b], _ =>
      obtain ⟨c0, hc0, c1, hc1, c2, hc2, hencode, hdecode⟩ := end_two_round a b
      exact ⟨[c0, c1, c2], 1, List.forall_mem_cons.mpr ⟨hc0, List.forall_mem_cons.mpr ⟨hc1,
        List.forall_mem_singleton.mpr hc2⟩⟩, hencode, rfl, by simp, hdecode⟩

/-! ## Padding -/

section
variable {symbols : List Char} {pad back : Nat}

theorem charAt_padding (hback : back ≤ pad) (hpos : 0 < back) :
    charAt (symbols ++ List.replicate pad '=') back = some '=' := by
  rw [charAt, List.length_append, List.length_replicate, if_pos (by omega), List.getElem?_append_right (by omega),
    List.getElem?_replicate, if_pos (by omega)]

theorem charAt_symbol (hsymbols : ∀ c ∈ symbols, c ∈ encodeTable) (hback : pad < back)
    (hlength : back ≤ symbols.length + pad) :
    ∃ c, charAt (symbols ++ List.replicate pad '=') back = some c ∧ c ≠ '=' := by
  have hin : symbols.length + pad - back < symbols.length := by omega
  refine ⟨symbols[symbols.length + pad - back], ?_, fun heq => padding_not_mem ?_⟩
  · rw [charAt, List.length_append, List.length_replicate, if_pos hlength, List.getElem?_append_left hin,
      List.getElem?_eq_getElem hin]
  · rw [← heq]
    exact hsymbols _ (List.getElem_mem hin)

/-- How the decoder tells the tails apart. -/
theorem padding_cases (hsymbols : ∀ c ∈ symbols, c ∈ encodeTable) (hlength : 2 ≤ symbols.length) (one two none : Nat) :
    (do
      if (← charAt (symbols ++ List.replicate pad '=') 2) = '=' then return one
      else if (← charAt (symbols ++ List.replicate pad '=') 1) = '=' then return two
      else return none) = some (if 2 ≤ pad then one else if 1 ≤ pad then two else none) := by
  rcases Nat.lt_or_ge pad 2 with htwo | htwo
  · obtain ⟨c, hc, hne⟩ := charAt_symbol hsymbols htwo (by omega)
    rw [if_neg (by omega)]
    rcases Nat.lt_or_ge pad 1 with hone | hone
    · obtain ⟨d, hd, hne'⟩ := charAt_symbol hsymbols hone (by omega)
      simp only [hc, hd, hne, hne', Option.bind_eq_bind, Option.bind_some, if_false, if_neg (Nat.not_le.mpr hone)]
      rfl
    · simp only [hc, charAt_padding hone (by decide : 0 < 1), hne, hone, Option.bind_eq_bind, Option.bind_some, if_false,
        if_true]
      rfl
  · simp only [charAt_padding htwo (by decide : 0 < 2), htwo, Option.bind_eq_bind, Option.bind_some, if_true]
    rfl

end

/-! ## Whole strings -/

/-- A string of symbols and padding that decodes to the input. -/
theorem encodeTo_round (input : List Byte) (hinput : input ≠ []) :
    ∃ symbols pad, (∀ c ∈ symbols, c ∈ encodeTable) ∧ pad ≤ 2 ∧
      encodeTo (Mem.ofList input) input.length = some (symbols ++ List.replicate pad '=') ∧
      symbols.length + pad = getEncodedSize input.length ∧
      getDecodedSize (symbols ++ List.replicate pad '=') = some input.length ∧
      decode (symbols ++ List.replicate pad '=') = some input := by
  have hpos := List.length_pos_iff.mpr hinput
  have hdrop : (input.drop (3 * (input.length / 3))).length = input.length % 3 := by
    rw [List.length_drop]
    omega
  obtain ⟨chars, hencode, hchars, halphabet, hdecode⟩ := blocks_round (input.length / 3) input (by omega)
  obtain ⟨symbols, pad, hsymbols, hencodeEnd, hpad, hlength, hdecodeEnd⟩ :=
    end_round (input.drop (3 * (input.length / 3))) (by omega)
  rw [hdrop] at hencodeEnd hpad hlength
  have hall : ∀ c ∈ chars ++ symbols, c ∈ encodeTable := List.forall_mem_append.mpr ⟨halphabet, hsymbols⟩
  have hcount : (chars ++ symbols).length + pad = getEncodedSize input.length := by
    rw [List.length_append, getEncodedSize]
    omega
  have hsize : (chars ++ symbols ++ List.replicate pad '=').length = getEncodedSize input.length := by
    rw [List.length_append, List.length_replicate, hcount]
  have htwo : 2 ≤ (chars ++ symbols).length := by
    rw [getEncodedSize] at hcount
    omega
  refine ⟨chars ++ symbols, pad, hall, by omega, ?_, hcount, ?_, ?_⟩
  · rw [encodeTo, hencode, ofList_add, hencodeEnd, List.append_assoc]
    rfl
  · rw [getDecodedSize, padding_cases hall htwo, hsize, getEncodedSize]
    congr 1
    split_ifs <;> omega
  · have hend : endBytesOf (chars ++ symbols ++ List.replicate pad '=')
        = some (if 2 ≤ pad then 2 else if 1 ≤ pad then 3 else 0) := padding_cases hall htwo 2 3 0
    have hblocks : (if (if 2 ≤ pad then 2 else if 1 ≤ pad then 3 else 0) = 0 then getEncodedSize input.length / 4
        else getEncodedSize input.length / 4 - 1) = input.length / 3 := by
      have hzero : (if 2 ≤ pad then 2 else if 1 ≤ pad then 3 else 0) = (0 : Nat) ↔ pad = 0 := by
        clear hend
        split_ifs <;> simp <;> omega
      rw [getEncodedSize, if_congr hzero rfl rfl]
      split_ifs <;> omega
    have hmod : getEncodedSize input.length % 4 = 0 := Nat.mul_mod_left _ 4
    rw [decode, hsize, if_pos hmod, hend]
    simp only [Option.bind_eq_bind, Option.bind_some]
    rw [hblocks, List.append_assoc, hdecode, Option.bind_some, hdecodeEnd, Option.bind_some, List.take_append_drop]
    rfl

end Sddr.Codec.Base64
