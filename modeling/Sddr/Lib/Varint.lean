import Sddr.Lib.Bits
import Mathlib.Data.Nat.Log

/-!
# Numbers of seven bits a byte

The lowest bits come first, and every byte but the last has its high bit set.
-/

namespace Sddr.Lib

def varint (n : Nat) : List Byte :=
  if n < 128 then [BitVec.ofNat 8 n] else BitVec.ofNat 8 (n % 128 + 128) :: varint (n / 128)
termination_by n
decreasing_by omega

/-- A number of at most `k` bytes, and the bytes behind it. -/
def readVarint : Nat → List Byte → Option (Nat × List Byte)
  | 0, _ => none
  | _ + 1, [] => none
  | k + 1, b :: rest =>
      if b.toNat < 128 then some (b.toNat, rest)
      else (readVarint k rest).map fun (n, rest) => (b.toNat % 128 + 128 * n, rest)

theorem varint_of_lt {n : Nat} (h : n < 128) : varint n = [BitVec.ofNat 8 n] := by rw [varint, if_pos h]

theorem varint_of_le {n : Nat} (h : 128 ≤ n) : varint n = BitVec.ofNat 8 (n % 128 + 128) :: varint (n / 128) := by
  rw [varint, if_neg (by omega)]

theorem readVarint_varint {k n : Nat} (h : n < 128 ^ (k + 1)) (rest : List Byte) :
    readVarint (k + 1) (varint n ++ rest) = some (n, rest) := by
  induction k generalizing n with
  | zero =>
      rw [varint_of_lt (by simpa using h), List.singleton_append, readVarint, BitVec.toNat_ofNat,
        Nat.mod_eq_of_lt (by omega : n < 2 ^ 8), if_pos (by simpa using h)]
  | succ k ih =>
      rcases Nat.lt_or_ge n 128 with hlt | hge
      · rw [varint_of_lt hlt, List.singleton_append, readVarint, BitVec.toNat_ofNat,
          Nat.mod_eq_of_lt (by omega : n < 2 ^ 8), if_pos hlt]
      · have hdiv : n / 128 < 128 ^ (k + 1) := by
          rw [Nat.div_lt_iff_lt_mul (by decide), ← Nat.pow_succ]
          exact h
        have hbyte : (BitVec.ofNat 8 (n % 128 + 128)).toNat = n % 128 + 128 := by
          rw [BitVec.toNat_ofNat]
          omega
        rw [varint_of_le hge, List.cons_append, readVarint, hbyte, if_neg (by omega), ih hdiv, Nat.add_mod_right, Nat.mod_mod]
        exact congrArg (fun m => some (m, rest)) (Nat.mod_add_div n 128)

/-- The bytes of a number of known size. -/
theorem varint_eq_digits {k n : Nat} (h : k = 0 ∨ 128 ^ k ≤ n) (hlt : n < 128 ^ (k + 1)) :
    varint n = ((List.range k).map fun j => BitVec.ofNat 8 (n / 128 ^ j % 128 + 128)) ++ [BitVec.ofNat 8 (n / 128 ^ k)] := by
  induction k generalizing n with
  | zero => rw [varint_of_lt (by simpa using hlt), List.range_zero, List.map_nil, List.nil_append, Nat.pow_zero, Nat.div_one]
  | succ k ih =>
      have hle : 128 ^ (k + 1) ≤ n := h.resolve_left (Nat.succ_ne_zero k)
      have hge : 128 ≤ n := Nat.le_trans (Nat.le_self_pow (Nat.succ_ne_zero k) 128) hle
      have hdiv : 128 ^ k ≤ n / 128 := by
        rw [Nat.le_div_iff_mul_le (by decide), ← Nat.pow_succ]
        exact hle
      have hdivlt : n / 128 < 128 ^ (k + 1) := by
        rw [Nat.div_lt_iff_lt_mul (by decide), ← Nat.pow_succ]
        exact hlt
      rw [varint_of_le hge, ih (Or.inr hdiv) hdivlt, List.range_succ_eq_map, List.map_cons, List.map_map, Nat.pow_zero,
        Nat.div_one, List.cons_append, Nat.div_div_eq_div_mul, ← Nat.pow_succ']
      refine congrArg (fun l => _ :: (l ++ _)) (List.map_congr_left fun j _ => ?_)
      rw [Function.comp_apply, Nat.div_div_eq_div_mul, ← Nat.pow_succ']

/-! ## Sizes -/

theorem length_varint_pos (n : Nat) : 0 < (varint n).length := by
  rw [varint]
  split_ifs <;> simp

theorem length_varint_of_le {n : Nat} (h : 128 ≤ n) : (varint n).length = (varint (n / 128)).length + 1 := by
  rw [varint_of_le h, List.length_cons]

/-- A number has one byte for each seven bits that it has begun. -/
theorem length_varint_eq {k n : Nat} (h : 128 ^ (k + 1) ≤ n) (hlt : n < 128 ^ (k + 2)) : (varint n).length = k + 2 := by
  induction k generalizing n with
  | zero =>
      have hdiv : n / 128 < 128 := by
        rw [Nat.div_lt_iff_lt_mul (by decide)]
        exact hlt
      rw [length_varint_of_le (by simpa using h), varint_of_lt hdiv, List.length_singleton]
  | succ k ih =>
      have hge : 128 ≤ n := Nat.le_trans (Nat.le_self_pow (Nat.succ_ne_zero _) 128) h
      rw [length_varint_of_le hge, ih]
      · rw [Nat.le_div_iff_mul_le (by decide), ← Nat.pow_succ]
        exact h
      · rw [Nat.div_lt_iff_lt_mul (by decide), ← Nat.pow_succ]
        exact hlt

theorem length_readVarint {k n : Nat} {bytes rest : List Byte} (h : readVarint k bytes = some (n, rest)) :
    rest.length < bytes.length := by
  induction k generalizing n bytes with
  | zero => cases h
  | succ k ih =>
      cases bytes with
      | nil => cases h
      | cons b bytes =>
          rw [readVarint] at h
          split_ifs at h
          · cases h
            exact Nat.lt_succ_self _
          · obtain ⟨⟨n', rest'⟩, hread, heq⟩ := Option.map_eq_some_iff.mp h
            cases heq
            exact Nat.lt_succ_of_lt (ih hread)

end Sddr.Lib
