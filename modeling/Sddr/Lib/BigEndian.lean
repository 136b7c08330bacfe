import Sddr.Lib.Bytes
import Mathlib.Data.Nat.Digits.Lemmas

/-!
# Numbers with the highest byte first

A number without leading zeros, as it is exported from and imported into a library for large integers.
-/

namespace Sddr.Lib

def ofBigEndian (bytes : List Byte) : Nat := ofLittleEndian bytes.reverse

/-- Zero has no bytes. -/
def toBigEndian (n : Nat) : List Byte := ((Nat.digits 256 n).map (BitVec.ofNat 8)).reverse

theorem ofLittleEndian_eq_ofDigits (bytes : List Byte) :
    ofLittleEndian bytes = Nat.ofDigits 256 (bytes.map BitVec.toNat) := by
  induction bytes with
  | nil => rfl
  | cons b bytes ih => rw [ofLittleEndian, ih, List.map_cons, Nat.ofDigits_cons]

theorem map_toNat_ofNat {digits : List Nat} (h : ∀ d ∈ digits, d < 256) :
    (digits.map (BitVec.ofNat 8)).map BitVec.toNat = digits := by
  rw [List.map_map]
  conv => rhs; rw [← List.map_id digits]
  refine List.map_congr_left fun d hd => ?_
  rw [Function.comp_apply, BitVec.toNat_ofNat]
  exact Nat.mod_eq_of_lt (h d hd)

@[simp] theorem ofBigEndian_toBigEndian (n : Nat) : ofBigEndian (toBigEndian n) = n := by
  rw [ofBigEndian, toBigEndian, List.reverse_reverse, ofLittleEndian_eq_ofDigits,
    map_toNat_ofNat fun d hd => Nat.digits_lt_base (by decide) hd]
  exact Nat.ofDigits_digits 256 n

theorem toBigEndian_injective : Function.Injective toBigEndian := fun m n h => by
  rw [← ofBigEndian_toBigEndian m, h, ofBigEndian_toBigEndian]

theorem length_toBigEndian (n : Nat) : (toBigEndian n).length = (Nat.digits 256 n).length := by
  rw [toBigEndian, List.length_reverse, List.length_map]

/-- The bytes that the bits of a number need. -/
theorem length_toBigEndian_of_ne_zero {n : Nat} (h : n ≠ 0) : (toBigEndian n).length = (n.log2 + 1 + 7) / 8 := by
  have hlog : Nat.log 256 n = n.log2 / 8 := by
    have hpow : (256 : Nat) = 2 ^ 8 := rfl
    rw [hpow, Nat.log_pow_left, Nat.log2_eq_log_two]
  rw [length_toBigEndian, Nat.length_digits 256 n (by decide) h, hlog]
  omega

theorem length_toBigEndian_le {n k : Nat} (h : n < 256 ^ k) : (toBigEndian n).length ≤ k := by
  rw [length_toBigEndian]
  exact (Nat.digits_length_le_iff (by decide) n).mpr h

end Sddr.Lib
