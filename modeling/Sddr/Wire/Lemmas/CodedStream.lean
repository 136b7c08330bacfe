import Sddr.Wire.CodedStream

/-!
# The paths of the coded streams

All of them write and read the same numbers of seven bits a byte.
-/

namespace Sddr.Wire
open Sddr.Lib

/-! ## Bytes -/

theorem toNat_or_0x80 : ∀ b : Byte, (b ||| 0x80).toNat = b.toNat % 128 + 128 := by decide

theorem toNat_and_0x7F : ∀ b : Byte, (b &&& 0x7F).toNat = b.toNat % 128 := by decide

theorem and_0x80 : ∀ b : Byte, b &&& 0x80 = 0 ↔ b.toNat < 128 := by decide

theorem eq_ofNat {b : Byte} {n : Nat} (h : b.toNat = n) : b = BitVec.ofNat 8 n := by
  rw [← h, BitVec.ofNat_toNat, BitVec.setWidth_eq]

section Continued

variable {w : Nat} (value : BitVec w)

theorem continued_eq_or (hw : 8 ≤ w) : continued value = value.setWidth 8 ||| 0x80 := by
  have h80 : BitVec.setWidth 8 (0x80 : BitVec w) = 0x80 := by
    apply BitVec.eq_of_toNat_eq
    have hpow : 2 ^ 8 ≤ 2 ^ w := Nat.pow_le_pow_right (by decide) hw
    rw [BitVec.toNat_setWidth, BitVec.ofNat_eq_ofNat, BitVec.toNat_ofNat, Nat.mod_eq_of_lt (by omega : 0x80 < 2 ^ w)]
    rfl
  rw [continued, BitVec.setWidth_or, h80]

theorem continued_eq (hw : 8 ≤ w) : continued value = BitVec.ofNat 8 (value.toNat % 128 + 128) := by
  refine eq_ofNat ?_
  rw [continued_eq_or value hw, toNat_or_0x80, BitVec.toNat_setWidth]
  omega

/-- The last byte loses the bit again. -/
theorem ofNat_and_0x7F (n : Nat) : (BitVec.ofNat 8 (n % 128 + 128) : Byte) &&& 0x7F = BitVec.ofNat 8 (n % 128) := by
  refine eq_ofNat ?_
  rw [toNat_and_0x7F, BitVec.toNat_ofNat]
  omega

end Continued

/-! ## Writing -/

/-- The byte of each group of seven bits, but for the last group. -/
def digit (n j : Nat) : Byte := BitVec.ofNat 8 (n / 128 ^ j % 128 + 128)

theorem digit_zero (n : Nat) : digit n 0 = BitVec.ofNat 8 (n % 128 + 128) := by rw [digit, Nat.pow_zero, Nat.div_one]

theorem varint_eq_list {k n : Nat} {init : List Byte} {last : Nat} (hinit : init = (List.range k).map (digit n))
    (hlast : last = n / 128 ^ k) (h : k = 0 ∨ 128 ^ k ≤ n) (hlt : n < 128 ^ (k + 1)) :
    init ++ [BitVec.ofNat 8 last] = varint n := by
  rw [hinit, hlast]
  exact (varint_eq_digits h hlt).symm

theorem writeVarint32FallbackToArray_eq (value : BitVec 32) : writeVarint32FallbackToArray value = varint value.toNat := by
  have hlt := value.isLt
  have hzero := digit_zero value.toNat
  have hlast : BitVec.setWidth 8 (value >>> 28) = BitVec.ofNat 8 (value.toNat / 2 ^ 28) := by
    apply BitVec.eq_of_toNat_eq
    rw [BitVec.toNat_setWidth, BitVec.toNat_ushiftRight, Nat.shiftRight_eq_div_pow, BitVec.toNat_ofNat]
  have h7 : (1#32 <<< 7).toNat = 128 := rfl
  have h14 : (1#32 <<< 14).toNat = 128 ^ 2 := rfl
  have h21 : (1#32 <<< 21).toNat = 128 ^ 3 := rfl
  have h28 : (1#32 <<< 28).toNat = 128 ^ 4 := rfl
  unfold writeVarint32FallbackToArray
  simp only [ge_iff_le, BitVec.le_def, continued_eq _ (by decide : 8 ≤ 32), ofNat_and_0x7F, hlast, ← hzero,
    BitVec.toNat_ushiftRight, Nat.shiftRight_eq_div_pow, h7, h14, h21, h28]
  split_ifs with hge7 hge14 hge21 hge28
  · exact varint_eq_list (k := 4) rfl rfl (Or.inr hge28) (Nat.lt_trans hlt (by decide))
  · exact varint_eq_list (k := 3) rfl (Nat.mod_eq_of_lt (by omega)) (Or.inr hge21) (Nat.not_le.mp hge28)
  · exact varint_eq_list (k := 2) rfl (Nat.mod_eq_of_lt (by omega)) (Or.inr hge14) (Nat.not_le.mp hge21)
  · exact varint_eq_list (k := 1) rfl (Nat.mod_eq_of_lt (by omega)) (Or.inr hge7) (Nat.not_le.mp hge14)
  · have hlast0 : value.toNat % 128 = value.toNat / 128 ^ 0 := by omega
    rw [digit_zero, ofNat_and_0x7F]
    exact varint_eq_list (k := 0) rfl hlast0 (Or.inl rfl) (Nat.not_le.mp hge7)

theorem setWidth_eq_ofNat {w : Nat} (value : BitVec w) : value.setWidth 8 = BitVec.ofNat 8 value.toNat := by
  apply BitVec.eq_of_toNat_eq
  rw [BitVec.toNat_setWidth, BitVec.toNat_ofNat]

theorem writeVarint32ToArray_eq (value : BitVec 32) : writeVarint32ToArray value = varint value.toNat := by
  have h80 : (0x80 : BitVec 32).toNat = 128 := rfl
  rw [writeVarint32ToArray]
  split_ifs with h
  · rw [BitVec.lt_def, h80] at h
    rw [varint_of_lt h, setWidth_eq_ofNat]
  · exact writeVarint32FallbackToArray_eq value

theorem writeTagValueToArray_eq (value : BitVec 32) : writeTagValueToArray value = varint value.toNat := by
  have h7 : (1#32 <<< 7).toNat = 128 := rfl
  have h14 : (1#32 <<< 14).toNat = 128 ^ 2 := rfl
  rw [writeTagValueToArray]
  simp only [BitVec.lt_def, h7, h14]
  split_ifs with hlt7 hlt14
  · rw [varint_of_lt hlt7, setWidth_eq_ofNat]
  · have hdiv : value.toNat / 128 < 128 := by
      rw [Nat.div_lt_iff_lt_mul (by decide)]
      exact hlt14
    rw [varint_of_le (Nat.not_lt.mp hlt7), varint_of_lt hdiv, continued_eq value (by decide), setWidth_eq_ofNat,
      BitVec.toNat_ushiftRight, Nat.shiftRight_eq_div_pow]
  · exact writeVarint32FallbackToArray_eq value

/-- A number of at most ten groups does not overrun the array that its bytes are composed in. -/
theorem writeVarintSlow_eq {w : Nat} (hw : 8 ≤ w) {room : Nat} {value : BitVec w} (h : value.toNat < 128 ^ (room + 1)) :
    writeVarintSlow (room + 1) value = some (varint value.toNat) := by
  have h7F : (0x7F : BitVec w).toNat = 127 := by
    have hpow : 2 ^ 8 ≤ 2 ^ w := Nat.pow_le_pow_right (by decide) hw
    rw [BitVec.ofNat_eq_ofNat, BitVec.toNat_ofNat, Nat.mod_eq_of_lt (by omega : 0x7F < 2 ^ w)]
  have hbyte : (value.setWidth 8 &&& 0x7F).toNat = value.toNat % 128 := by
    rw [toNat_and_0x7F, BitVec.toNat_setWidth]
    omega
  induction room generalizing value with
  | zero =>
      rw [writeVarintSlow, if_neg (by rw [BitVec.lt_def, h7F]; omega), varint_of_lt (by simpa using h)]
      exact congrArg (fun b => some [b]) (eq_ofNat (by rw [hbyte]; omega))
  | succ room ih =>
      rw [writeVarintSlow]
      split_ifs with hlt
      · rw [BitVec.lt_def, h7F] at hlt
        have hshift : (value >>> 7).toNat = value.toNat / 128 := by
          rw [BitVec.toNat_ushiftRight, Nat.shiftRight_eq_div_pow]
        have hdiv : (value >>> 7).toNat < 128 ^ (room + 1) := by
          rw [hshift, Nat.div_lt_iff_lt_mul (by decide), ← Nat.pow_succ]
          exact h
        have hbyte' : (BitVec.setWidth 8 (value >>> 7) &&& 0x7F).toNat = (value >>> 7).toNat % 128 := by
          rw [toNat_and_0x7F, BitVec.toNat_setWidth]
          omega
        rw [ih hdiv hbyte', hshift, varint_of_le hlt, Option.map_some]
        refine congrArg (fun b => some (b :: _)) (eq_ofNat ?_)
        rw [toNat_or_0x80, hbyte, Nat.mod_mod]
      · rw [BitVec.lt_def, h7F] at hlt
        rw [varint_of_lt (by omega)]
        exact congrArg (fun b => some [b]) (eq_ofNat (by rw [hbyte]; omega))

/-! ### Parts of 28 bits -/

section Parts

variable (value : BitVec 64)

theorem sizeOfParts_spec :
    ∃ k ≤ 9, sizeOfParts (value.setWidth 32) ((value >>> 28).setWidth 32) ((value >>> 56).setWidth 32) = k + 1
      ∧ (k = 0 ∨ 128 ^ k ≤ value.toNat) ∧ value.toNat < 128 ^ (k + 1) := by
  have hlt := value.isLt
  have h7 : (1#32 <<< 7).toNat = 2 ^ 7 := rfl
  have h14 : (1#32 <<< 14).toNat = 2 ^ 14 := rfl
  have h21 : (1#32 <<< 21).toNat = 2 ^ 21 := rfl
  have h0 : (0 : BitVec 32).toNat = 0 := rfl
  unfold sizeOfParts
  simp only [← BitVec.toNat_inj, BitVec.lt_def, BitVec.toNat_setWidth, BitVec.toNat_ushiftRight, Nat.shiftRight_eq_div_pow,
    h7, h14, h21, h0]
  split_ifs with hpart2 hpart1 h14 h7 h21 h14 h7 h21 h7
  · exact ⟨0, by omega, rfl, by omega, by omega⟩
  · exact ⟨1, by omega, rfl, by omega, by omega⟩
  · exact ⟨2, by omega, rfl, by omega, by omega⟩
  · exact ⟨3, by omega, rfl, by omega, by omega⟩
  · exact ⟨4, by omega, rfl, by omega, by omega⟩
  · exact ⟨5, by omega, rfl, by omega, by omega⟩
  · exact ⟨6, by omega, rfl, by omega, by omega⟩
  · exact ⟨7, by omega, rfl, by omega, by omega⟩
  · exact ⟨8, by omega, rfl, by omega, by omega⟩
  · exact ⟨9, by omega, rfl, by omega, by omega⟩

/-- The bytes of all ten groups, of which the first ones are kept. -/
theorem target_eq :
    [continued (value.setWidth 32), continued (value.setWidth 32 >>> 7), continued (value.setWidth 32 >>> 14),
      continued (value.setWidth 32 >>> 21), continued ((value >>> 28).setWidth 32),
      continued ((value >>> 28).setWidth 32 >>> 7), continued ((value >>> 28).setWidth 32 >>> 14),
      continued ((value >>> 28).setWidth 32 >>> 21), continued ((value >>> 56).setWidth 32),
      continued ((value >>> 56).setWidth 32 >>> 7)] = (List.range 10).map (digit value.toNat) := by
  have hdigit : ∀ (part : BitVec 32) (j : Nat), part.toNat % 128 = value.toNat / 128 ^ j % 128 →
      continued part = digit value.toNat j := fun part j h => by
    rw [continued_eq part (by decide), h, digit]
  simp only [List.range_succ, List.range_zero, List.nil_append, List.cons_append, List.map_cons, List.map_nil,
    List.cons.injEq, and_true]
  refine ⟨hdigit _ 0 ?_, hdigit _ 1 ?_, hdigit _ 2 ?_, hdigit _ 3 ?_, hdigit _ 4 ?_, hdigit _ 5 ?_, hdigit _ 6 ?_,
    hdigit _ 7 ?_, hdigit _ 8 ?_, hdigit _ 9 ?_⟩ <;>
    simp only [BitVec.toNat_ushiftRight, BitVec.toNat_setWidth, Nat.shiftRight_eq_div_pow] <;> omega

theorem modify_concat {α : Type} (l : List α) (a : α) (f : α → α) : (l ++ [a]).modify l.length f = l ++ [f a] := by
  rw [List.modify_eq_take_cons_drop (by simp)]
  simp

theorem writeVarint64ToArray_eq : writeVarint64ToArray value = varint value.toNat := by
  obtain ⟨k, hk, hsize, hge, hlt⟩ := sizeOfParts_spec value
  have hlast : digit value.toNat k &&& 0x7F = BitVec.ofNat 8 (value.toNat / 128 ^ k) := by
    have hdiv : value.toNat / 128 ^ k < 128 := by
      rw [Nat.div_lt_iff_lt_mul (Nat.pow_pos (by decide)), ← Nat.pow_succ']
      exact hlt
    rw [digit, ofNat_and_0x7F, Nat.mod_eq_of_lt hdiv]
  have hmodify := modify_concat ((List.range k).map (digit value.toNat)) (digit value.toNat k) (· &&& 0x7F)
  rw [List.length_map, List.length_range] at hmodify
  unfold writeVarint64ToArray
  dsimp only
  rw [hsize, target_eq, ← List.map_take, List.take_range, Nat.min_eq_left (by omega), List.range_succ, List.map_append,
    List.map_singleton, Nat.add_sub_cancel, hmodify, hlast]
  exact varint_eq_list rfl rfl hge hlt

end Parts

/-- A negative number is written in 64 bits. -/
theorem writeVarint32SignExtendedToArray_eq (value : BitVec 32) :
    writeVarint32SignExtendedToArray value = varint (value.signExtend 64).toNat := by
  rw [writeVarint32SignExtendedToArray]
  split_ifs with h
  · exact writeVarint64ToArray_eq _
  · have hmsb : value.msb = false := by
      rw [BitVec.msb_eq_toInt, decide_eq_false_iff_not]
      simpa [BitVec.slt_iff_toInt_lt] using h
    rw [writeVarint32ToArray_eq, BitVec.signExtend_eq_setWidth_of_msb_false hmsb, BitVec.toNat_setWidth_of_le (by decide)]

/-! ## Sizes -/

theorem varintSize32_eq (value : BitVec 32) : varintSize32 value = (varint value.toNat).length := by
  have hlt := value.isLt
  have h7 : (1#32 <<< 7).toNat = 128 ^ 1 := rfl
  have h14 : (1#32 <<< 14).toNat = 128 ^ 2 := rfl
  have h21 : (1#32 <<< 21).toNat = 128 ^ 3 := rfl
  have h28 : (1#32 <<< 28).toNat = 128 ^ 4 := rfl
  unfold varintSize32
  simp only [BitVec.lt_def, h7, h14, h21, h28]
  split_ifs with hlt7 hlt14 hlt21 hlt28
  · rw [varint_of_lt hlt7, List.length_singleton]
  · exact (length_varint_eq (Nat.not_lt.mp hlt7) hlt14).symm
  · exact (length_varint_eq (Nat.not_lt.mp hlt14) hlt21).symm
  · exact (length_varint_eq (Nat.not_lt.mp hlt21) hlt28).symm
  · exact (length_varint_eq (Nat.not_lt.mp hlt28) (Nat.lt_trans hlt (by decide))).symm

theorem varintSize64_eq (value : BitVec 64) : varintSize64 value = (varint value.toNat).length := by
  have hlt := value.isLt
  have h7 : (1#64 <<< 7).toNat = 128 ^ 1 := rfl
  have h14 : (1#64 <<< 14).toNat = 128 ^ 2 := rfl
  have h21 : (1#64 <<< 21).toNat = 128 ^ 3 := rfl
  have h28 : (1#64 <<< 28).toNat = 128 ^ 4 := rfl
  have h35 : (1#64 <<< 35).toNat = 128 ^ 5 := rfl
  have h42 : (1#64 <<< 42).toNat = 128 ^ 6 := rfl
  have h49 : (1#64 <<< 49).toNat = 128 ^ 7 := rfl
  have h56 : (1#64 <<< 56).toNat = 128 ^ 8 := rfl
  have h63 : (1#64 <<< 63).toNat = 128 ^ 9 := rfl
  unfold varintSize64
  simp only [BitVec.lt_def, h7, h14, h21, h28, h35, h42, h49, h56, h63]
  split_ifs with hlt35 hlt7 hlt14 hlt21 hlt28 hlt42 hlt49 hlt56 hlt63
  · rw [varint_of_lt hlt7, List.length_singleton]
  · exact (length_varint_eq (Nat.not_lt.mp hlt7) hlt14).symm
  · exact (length_varint_eq (Nat.not_lt.mp hlt14) hlt21).symm
  · exact (length_varint_eq (Nat.not_lt.mp hlt21) hlt28).symm
  · exact (length_varint_eq (Nat.not_lt.mp hlt28) hlt35).symm
  · exact (length_varint_eq (Nat.not_lt.mp hlt35) hlt42).symm
  · exact (length_varint_eq (Nat.not_lt.mp hlt42) hlt49).symm
  · exact (length_varint_eq (Nat.not_lt.mp hlt49) hlt56).symm
  · exact (length_varint_eq (Nat.not_lt.mp hlt56) hlt63).symm
  · exact (length_varint_eq (Nat.not_lt.mp hlt63) (Nat.lt_trans hlt (by decide))).symm

theorem varintSize32SignExtended_eq (value : BitVec 32) :
    varintSize32SignExtended value = (varint (value.signExtend 64).toNat).length := by
  rw [varintSize32SignExtended]
  split_ifs with h
  · have hmsb : value.msb = true := by
      rw [BitVec.msb_eq_toInt, decide_eq_true_iff]
      simpa [BitVec.slt_iff_toInt_lt] using h
    have hge : 128 ^ 9 ≤ (value.signExtend 64).toNat := by
      have hsign : (value.signExtend 64).msb = true := by simp [BitVec.msb_signExtend, hmsb]
      have hhalf : 2 ^ 63 ≤ (value.signExtend 64).toNat := by simpa using BitVec.toNat_ge_of_msb_true hsign
      exact Nat.le_trans (by decide) hhalf
    exact (length_varint_eq hge (Nat.lt_trans (value.signExtend 64).isLt (by decide))).symm
  · have hmsb : value.msb = false := by
      rw [BitVec.msb_eq_toInt, decide_eq_false_iff_not]
      simpa [BitVec.slt_iff_toInt_lt] using h
    rw [varintSize32_eq, BitVec.signExtend_eq_setWidth_of_msb_false hmsb, BitVec.toNat_setWidth_of_le (by decide)]

/-! ## Reading -/

theorem ofNat_add_mul {w k x : Nat} (h : x < 2 ^ k) (n : Nat) :
    BitVec.ofNat w (x + 2 ^ k * n) = BitVec.ofNat w x ||| (BitVec.ofNat w n <<< k) := by
  have hor : x + 2 ^ k * n = x ||| (n <<< k) := by
    rw [Nat.add_comm, Nat.two_pow_add_eq_or_of_lt h, Nat.shiftLeft_eq, Nat.or_comm, Nat.mul_comm]
  have hshift : BitVec.ofNat w (n <<< k) = BitVec.ofNat w n <<< k := by
    apply BitVec.eq_of_toNat_eq
    rw [BitVec.toNat_ofNat, BitVec.toNat_shiftLeft, BitVec.toNat_ofNat, Nat.shiftLeft_eq, Nat.shiftLeft_eq, Nat.mod_mul_mod]
  rw [hor, BitVec.ofNat_or, hshift]

/-- The seven bits of a byte. -/
theorem setWidth_and_0x7F {w : Nat} (hw : 8 ≤ w) (b : Byte) : b.setWidth w &&& 0x7F = BitVec.ofNat w (b.toNat % 128) := by
  have hpow : 2 ^ 8 ≤ 2 ^ w := Nat.pow_le_pow_right (by decide) hw
  have hb := b.isLt
  have h7F : (0x7F : BitVec w).toNat = 2 ^ 7 - 1 := by
    rw [BitVec.ofNat_eq_ofNat, BitVec.toNat_ofNat, Nat.mod_eq_of_lt (by omega : 0x7F < 2 ^ w)]
    rfl
  apply BitVec.eq_of_toNat_eq
  rw [BitVec.toNat_and, h7F, Nat.and_two_pow_sub_one_eq_mod, BitVec.toNat_setWidth, BitVec.toNat_ofNat,
    Nat.mod_eq_of_lt (by omega : b.toNat < 2 ^ w), Nat.mod_eq_of_lt (by omega : b.toNat % 128 < 2 ^ w)]

/-- A byte in front of the rest of a number. -/
theorem or_shift_step {w : Nat} (result : BitVec w) (x n shift : Nat) (h : x < 128) :
    result ||| (BitVec.ofNat w x <<< shift) ||| (BitVec.ofNat w n <<< (shift + 7))
      = result ||| (BitVec.ofNat w (x + 128 * n) <<< shift) := by
  have hsum : BitVec.ofNat w (x + 128 * n) = BitVec.ofNat w x ||| (BitVec.ofNat w n <<< 7) := ofNat_add_mul (k := 7) h n
  rw [hsum, BitVec.shiftLeft_or_distrib, ← BitVec.shiftLeft_add, Nat.add_comm 7, BitVec.or_assoc]

/-- The loop for a buffer that a number may cross the end of. -/
theorem readVarint64Slow_eq (left count : Nat) (result : BitVec 64) (buffer : List Byte) :
    readVarint64Slow left count result buffer
      = (readVarint left buffer).map fun (n, rest) => (result ||| (BitVec.ofNat 64 n <<< (7 * count)), rest) := by
  induction left generalizing count result buffer with
  | zero => rfl
  | succ left ih =>
      cases buffer with
      | nil => rfl
      | cons b buffer =>
          have hmod : b.toNat % 128 < 128 := Nat.mod_lt _ (by decide)
          simp only [readVarint64Slow, readVarint, and_0x80, setWidth_and_0x7F (by decide : 8 ≤ 64)]
          split_ifs with hend
          · rw [Nat.mod_eq_of_lt hend]
            rfl
          · rw [ih, Option.map_map]
            refine congrArg (Option.map · _) (funext fun p => ?_)
            exact congrArg (·, p.2) (or_shift_step result _ p.1 (7 * count) hmod)

/-! ### Unrolled loops -/

/-- A number of at most `n` bytes does not go on behind the buffer. -/
def Inside (n : Nat) (buffer : List Byte) : Prop := n ≤ buffer.length ∨ ∃ b ∈ buffer, b.toNat < 128

theorem inside_of_staysInside {buffer : List Byte} (h : staysInside buffer = true) : Inside 10 buffer := by
  rw [staysInside, Bool.or_eq_true, decide_eq_true_iff, Option.any_eq_true] at h
  rcases h with hlength | ⟨b, hlast, hb⟩
  · exact Or.inl hlength
  · exact Or.inr ⟨b, List.mem_of_getLast? hlast, (and_0x80 b).mp (of_decide_eq_true hb)⟩

theorem not_inside_nil (n : Nat) : ¬ Inside (n + 1) [] := by simp [Inside]

theorem inside_cons {n : Nat} {b : Byte} {buffer : List Byte} (hb : ¬ b.toNat < 128) :
    Inside (n + 1) (b :: buffer) ↔ Inside n buffer := by
  simp [Inside, hb]

/-- What a part makes of the first bytes of a number. -/
inductive PartRead (bytes shift : Nat) (part : BitVec 32) (buffer : List Byte) : Part → Prop
  | ended {n rest} : n < 128 ^ bytes → (∀ k, readVarint (bytes + k) buffer = some (n, rest)) →
      PartRead bytes shift part buffer (.ended (part ||| (BitVec.ofNat 32 n <<< shift)) rest)
  | goesOn {n rest} : n < 128 ^ bytes → (∀ k, Inside (bytes + k) buffer → Inside k rest) →
      (∀ k, readVarint (bytes + k) buffer = (readVarint k rest).map fun p => (n + 128 ^ bytes * p.1, p.2)) →
      PartRead bytes shift part buffer (.goesOn (part ||| (BitVec.ofNat 32 n <<< shift)) rest)
  | past : (∀ k, ¬ Inside (bytes + k) buffer) → PartRead bytes shift part buffer .past

theorem readPart_spec (bytes shift : Nat) (part : BitVec 32) (buffer : List Byte) :
    PartRead bytes shift part buffer (readPart bytes shift part buffer) := by
  induction bytes generalizing shift part buffer with
  | zero =>
      have hgoesOn : PartRead 0 shift part buffer (.goesOn (part ||| (BitVec.ofNat 32 0 <<< shift)) buffer) := .goesOn
        Nat.one_pos (fun k h => by simpa using h) (fun k => by simp)
      simpa [readPart] using hgoesOn
  | succ bytes ih =>
      cases buffer with
      | nil => exact .past fun k => by rw [Nat.succ_add]; exact not_inside_nil _
      | cons b buffer =>
          have hmod : b.toNat % 128 < 128 := Nat.mod_lt _ (by decide)
          simp only [readPart, and_0x80, setWidth_and_0x7F (by decide : 8 ≤ 32)]
          split_ifs with hend
          · rw [Nat.mod_eq_of_lt hend]
            refine .ended (Nat.lt_of_lt_of_le hend (Nat.le_self_pow (Nat.succ_ne_zero _) 128)) fun k => ?_
            rw [Nat.succ_add, readVarint, if_pos hend]
          · have hcons : ∀ n, n < 128 ^ bytes → b.toNat % 128 + 128 * n < 128 ^ (bytes + 1) := fun n hn => by
              rw [Nat.pow_succ']
              omega
            have hread := ih (shift + 7) (part ||| (BitVec.ofNat 32 (b.toNat % 128) <<< shift)) buffer
            generalize readPart bytes (shift + 7) (part ||| (BitVec.ofNat 32 (b.toNat % 128) <<< shift)) buffer = read at hread
            cases hread with
            | @ended n rest hn hvarint =>
                rw [or_shift_step part _ n shift hmod]
                refine .ended (hcons n hn) fun k => ?_
                rw [Nat.succ_add, readVarint, if_neg hend, hvarint k]
                rfl
            | @goesOn n rest hn hinside hvarint =>
                rw [or_shift_step part _ n shift hmod]
                refine .goesOn (hcons n hn) (fun k hk => hinside k ?_) fun k => ?_
                · rw [Nat.succ_add] at hk
                  exact (inside_cons hend).mp hk
                · rw [Nat.succ_add, readVarint, if_neg hend, hvarint k, Option.map_map]
                  refine congrArg (Option.map · _) (funext fun p => ?_)
                  have hsum : b.toNat % 128 + 128 * (n + 128 ^ bytes * p.1)
                      = b.toNat % 128 + 128 * n + 128 ^ (bytes + 1) * p.1 := by
                    rw [Nat.mul_add, Nat.pow_succ', Nat.mul_assoc, Nat.add_assoc]
                  exact congrArg (·, p.2) hsum
            | past hpast =>
                refine .past fun k hk => hpast k ?_
                rw [Nat.succ_add] at hk
                exact (inside_cons hend).mp hk

/-! ### Numbers of up to ten bytes -/

theorem zero_or_shift_zero (n : Nat) : (0 : BitVec 32) ||| (BitVec.ofNat 32 n <<< 0) = BitVec.ofNat 32 n := by simp

theorem setWidth_ofNat {n : Nat} (h : n < 2 ^ 32) : (BitVec.ofNat 32 n).setWidth 64 = BitVec.ofNat 64 n := by
  apply BitVec.eq_of_toNat_eq
  rw [BitVec.toNat_setWidth, BitVec.toNat_ofNat, BitVec.toNat_ofNat, Nat.mod_eq_of_lt h]

theorem ofParts_eq {n0 n1 n2 : Nat} (h0 : n0 < 128 ^ 4) (h1 : n1 < 128 ^ 4) (h2 : n2 < 128 ^ 2) :
    ofParts (BitVec.ofNat 32 n0) (BitVec.ofNat 32 n1) (BitVec.ofNat 32 n2)
      = BitVec.ofNat 64 (n0 + 128 ^ 4 * (n1 + 128 ^ 4 * n2)) := by
  have hsum0 : BitVec.ofNat 64 (n0 + 128 ^ 4 * (n1 + 128 ^ 4 * n2))
      = BitVec.ofNat 64 n0 ||| (BitVec.ofNat 64 (n1 + 128 ^ 4 * n2) <<< 28) := ofNat_add_mul (k := 28) h0 _
  have hsum1 : BitVec.ofNat 64 (n1 + 128 ^ 4 * n2) = BitVec.ofNat 64 n1 ||| (BitVec.ofNat 64 n2 <<< 28) :=
    ofNat_add_mul (k := 28) h1 _
  rw [ofParts, setWidth_ofNat (by omega), setWidth_ofNat (by omega), setWidth_ofNat (by omega), hsum0, hsum1,
    BitVec.shiftLeft_or_distrib, ← BitVec.shiftLeft_add, BitVec.or_assoc]

/-- `readVarint` with the number as a machine word. -/
def readWord (w : Nat) (buffer : List Byte) : Option (BitVec w × List Byte) :=
  (readVarint 10 buffer).map fun (n, rest) => (BitVec.ofNat w n, rest)

theorem readVarint64FromArray_eq {buffer : List Byte} (h : Inside 10 buffer) :
    readVarint64FromArray buffer = some (readWord 64 buffer) := by
  have hzero : BitVec.ofNat 32 0 = (0 : BitVec 32) := rfl
  have hread0 := readPart_spec 4 0 0 buffer
  rw [readVarint64FromArray, readWord]
  generalize readPart 4 0 0 buffer = read0 at hread0
  cases hread0 with
  | past hpast => exact absurd h (hpast 6)
  | @ended n0 rest0 hn0 hvarint0 =>
      have hparts := ofParts_eq hn0 (by decide : 0 < 128 ^ 4) (by decide : 0 < 128 ^ 2)
      rw [hzero] at hparts
      dsimp only
      rw [hvarint0 6, zero_or_shift_zero, hparts]
      rfl
  | @goesOn n0 rest0 hn0 hinside0 hvarint0 =>
      have hread1 := readPart_spec 4 0 0 rest0
      dsimp only
      rw [hvarint0 6, zero_or_shift_zero]
      generalize readPart 4 0 0 rest0 = read1 at hread1
      cases hread1 with
      | past hpast => exact absurd (hinside0 6 h) (hpast 2)
      | @ended n1 rest1 hn1 hvarint1 =>
          have hparts := ofParts_eq hn0 hn1 (by decide : 0 < 128 ^ 2)
          rw [hzero] at hparts
          dsimp only
          rw [hvarint1 2, zero_or_shift_zero, hparts]
          rfl
      | @goesOn n1 rest1 hn1 hinside1 hvarint1 =>
          have hread2 := readPart_spec 2 0 0 rest1
          dsimp only
          rw [hvarint1 2, zero_or_shift_zero]
          generalize readPart 2 0 0 rest1 = read2 at hread2
          cases hread2 with
          | past hpast => exact absurd (hinside1 2 (hinside0 6 h)) (hpast 0)
          | @ended n2 rest2 hn2 hvarint2 =>
              dsimp only
              rw [hvarint2 0, zero_or_shift_zero, ofParts_eq hn0 hn1 hn2]
              rfl
          | @goesOn n2 rest2 hn2 hinside2 hvarint2 =>
              dsimp only
              rw [hvarint2 0]
              rfl

/-! ### Numbers of 32 bits -/

/-- What is left of a number past its fifth byte. -/
theorem discard_eq (result : BitVec 32) {n : Nat} {buffer : List Byte} (h : Inside n buffer) :
    discard result n buffer = some ((readVarint n buffer).map fun (_, rest) => (result, rest)) := by
  induction n generalizing buffer with
  | zero => rfl
  | succ n ih =>
      cases buffer with
      | nil => exact absurd h (not_inside_nil n)
      | cons b buffer =>
          simp only [discard, readVarint, and_0x80]
          split_ifs with hend
          · rfl
          · rw [ih ((inside_cons hend).mp h), Option.map_map]
            rfl

/-- The bits of the fifth byte that do not fit fall away. -/
theorem fifth_byte (n m : Nat) (b : Byte) (hn : n < 128 ^ 4) :
    BitVec.ofNat 32 n ||| (b.setWidth 32 <<< 28) = BitVec.ofNat 32 (n + 128 ^ 4 * (b.toNat % 128 + 128 * m)) := by
  have hsum : BitVec.ofNat 32 (n + 128 ^ 4 * (b.toNat % 128 + 128 * m))
      = BitVec.ofNat 32 n ||| (BitVec.ofNat 32 (b.toNat % 128 + 128 * m) <<< 28) := ofNat_add_mul (k := 28) hn _
  rw [hsum]
  refine congrArg (BitVec.ofNat 32 n ||| ·) (BitVec.eq_of_toNat_eq ?_)
  have hb := b.isLt
  rw [BitVec.toNat_shiftLeft, BitVec.toNat_shiftLeft, BitVec.toNat_setWidth, BitVec.toNat_ofNat, Nat.shiftLeft_eq,
    Nat.shiftLeft_eq]
  omega

theorem readVarint32FromArray_eq {buffer : List Byte} (h : Inside 10 buffer) :
    readVarint32FromArray buffer = some (readWord 32 buffer) := by
  have hread := readPart_spec 4 0 0 buffer
  rw [readVarint32FromArray, readWord]
  generalize readPart 4 0 0 buffer = read at hread
  cases hread with
  | past hpast => exact absurd h (hpast 6)
  | @ended n rest hn hvarint =>
      dsimp only
      rw [hvarint 6, zero_or_shift_zero]
      rfl
  | @goesOn n rest hn hinside hvarint =>
      cases rest with
      | nil => exact absurd (hinside 6 h) (not_inside_nil 5)
      | cons b rest =>
          dsimp only
          rw [hvarint 6, zero_or_shift_zero]
          simp only [and_0x80, readVarint]
          split_ifs with hend
          · have hfifth := fifth_byte n 0 b hn
            rw [Nat.mul_zero, Nat.add_zero, Nat.mod_eq_of_lt hend] at hfifth
            rw [hfifth]
            rfl
          · rw [discard_eq _ ((inside_cons hend).mp (hinside 6 h)), Option.map_map, Option.map_map]
            exact congrArg (fun f => some (Option.map f (readVarint 5 rest)))
              (funext fun p => congrArg (·, p.2) (fifth_byte n p.1 b hn))

/-! ### All paths -/

theorem readWord_single (w : Nat) {b : Byte} (h : b < 0x80) (rest : List Byte) :
    readWord w (b :: rest) = some (b.setWidth w, rest) := by
  have hlt : b.toNat < 128 := h
  rw [readWord, readVarint, if_pos hlt, Option.map_some]
  exact congrArg (fun value => some (value, rest)) (BitVec.ofNat_toNat w b)

theorem readVarint64Slow_start (buffer : List Byte) : readVarint64Slow 10 0 0 buffer = readWord 64 buffer := by
  rw [readVarint64Slow_eq, readWord]
  refine congrArg (Option.map · _) (funext fun p => ?_)
  simp

theorem readVarint64In_eq (buffer : List Byte) : readVarint64In buffer = some (readWord 64 buffer) := by
  cases buffer with
  | nil => rfl
  | cons b rest =>
      rw [readVarint64In]
      split_ifs with hend hinside
      · rw [readWord_single _ hend]
      · exact readVarint64FromArray_eq (inside_of_staysInside hinside)
      · rw [readVarint64Slow_start]

theorem readWord_64_32 (buffer : List Byte) :
    ((readWord 64 buffer).map fun (value, rest) => (value.setWidth 32, rest)) = readWord 32 buffer := by
  rw [readWord, readWord, Option.map_map]
  refine congrArg (Option.map · _) (funext fun p => congrArg (·, p.2) ?_)
  exact BitVec.setWidth_ofNat_of_le (by decide) p.1

theorem readVarint32In_eq (buffer : List Byte) : readVarint32In buffer = some (readWord 32 buffer) := by
  cases buffer with
  | nil => rfl
  | cons b rest =>
      rw [readVarint32In]
      split_ifs with hend hinside
      · rw [readWord_single _ hend]
      · exact readVarint32FromArray_eq (inside_of_staysInside hinside)
      · rw [readVarint64Slow_start, readWord_64_32]

theorem readTagIn_eq (buffer : List Byte) : readTagIn buffer = some ((readWord 32 buffer).getD (0, buffer)) := by
  cases buffer with
  | nil => rfl
  | cons b rest =>
      rw [readTagIn]
      split_ifs with hend hinside
      · rw [readWord_single _ hend, Option.getD_some]
      · rw [readVarint32FromArray_eq (inside_of_staysInside hinside)]
        rfl
      · rw [readVarint64In_eq, ← readWord_64_32]
        rfl

theorem readVarint64_eq (buffer : List Byte) : readVarint64 buffer = readWord 64 buffer := by
  rw [readVarint64, readVarint64In_eq, Option.join_some]

theorem readVarint32_eq (buffer : List Byte) : readVarint32 buffer = readWord 32 buffer := by
  rw [readVarint32, readVarint32In_eq, Option.join_some]

theorem readTag_eq (buffer : List Byte) : readTag buffer = (readWord 32 buffer).getD (0, buffer) := by
  rw [readTag, readTagIn_eq, Option.getD_some]

end Sddr.Wire
