import Mathlib.Data.List.DropRight
import Mathlib.Data.Nat.Bitwise

/-!
# Numbers as bit strings

`toBits k n` is the low `k` bits of `n`, most significant first.
-/

namespace Sddr.Lib

def toBits : Nat → Nat → List Bool
  | 0, _ => []
  | k + 1, n => n.testBit k :: toBits k n

variable {j k m n b : Nat}

@[simp] theorem length_toBits (k n : Nat) : (toBits k n).length = k := by
  induction k with
  | zero => rfl
  | succ k ih => simp [toBits, ih]

theorem toBits_congr (h : ∀ i < k, m.testBit i = n.testBit i) : toBits k m = toBits k n := by
  induction k with
  | zero => rfl
  | succ k ih => rw [toBits, toBits, h k (Nat.lt_succ_self k), ih fun i hi => h i (Nat.lt_succ_of_lt hi)]

theorem testBit_of_toBits (h : toBits k m = toBits k n) : ∀ i < k, m.testBit i = n.testBit i := by
  induction k with
  | zero => simp
  | succ k ih =>
      intro i hi
      obtain ⟨htop, hrest⟩ := List.cons.inj h
      rcases Nat.lt_succ_iff_lt_or_eq.mp hi with hlt | rfl
      · exact ih hrest i hlt
      · exact htop

theorem toBits_add (j k n : Nat) : toBits (j + k) n = toBits j (n >>> k) ++ toBits k n := by
  induction j with
  | zero => simp [toBits]
  | succ j ih => rw [Nat.succ_add, toBits, toBits, ih, Nat.testBit_shiftRight, Nat.add_comm k j, List.cons_append]

theorem toBits_split (n : Nat) (h : k ≤ m) : toBits m n = toBits k (n >>> (m - k)) ++ toBits (m - k) n := by
  rw [← toBits_add, Nat.add_sub_cancel' h]

theorem toBits_mod (h : k ≤ m) : toBits k (n % 2 ^ m) = toBits k n :=
  toBits_congr fun i hi => by simp [Nat.testBit_mod_two_pow, Nat.lt_of_lt_of_le hi h]

theorem toBits_and (h : k ≤ m) : toBits k (n &&& (2 ^ m - 1)) = toBits k n := by
  rw [Nat.and_two_pow_sub_one_eq_mod, toBits_mod h]

/-- Shifting `n` and filling in `b` puts the bits of `b` behind those of `n`. -/
theorem toBits_shiftLeft_or (j n : Nat) (hb : b < 2 ^ k) :
    toBits (j + k) ((n <<< k) ||| b) = toBits j n ++ toBits k b := by
  have hhigh : ∀ i, ((n <<< k ||| b) >>> k).testBit i = n.testBit i := by
    intro i
    have hzero : b.testBit (k + i) = false :=
      Nat.testBit_lt_two_pow (Nat.lt_of_lt_of_le hb (Nat.pow_le_pow_right (by omega) (by omega)))
    simp [Nat.testBit_shiftRight, Nat.testBit_or, Nat.testBit_shiftLeft, hzero]
  have hlow : ∀ i < k, (n <<< k ||| b).testBit i = b.testBit i := by
    intro i hi
    have : ¬ k ≤ i := Nat.not_le.mpr hi
    simp [Nat.testBit_or, Nat.testBit_shiftLeft, this]
  rw [toBits_add, toBits_congr fun i _ => hhigh i, toBits_congr hlow]

theorem toBits_zero (k : Nat) : toBits k 0 = List.replicate k false := by
  induction k with
  | zero => rfl
  | succ k ih => rw [toBits, ih, Nat.zero_testBit, List.replicate_succ]

theorem toBits_ones (k : Nat) : toBits k (1 <<< k - 1) = List.replicate k true := by
  have hones : ∀ j ≤ k, toBits j (2 ^ k - 1) = List.replicate j true := by
    intro j
    induction j with
    | zero => intro _; rfl
    | succ j ih =>
        intro hj
        rw [toBits, ih (Nat.le_of_succ_le hj), Nat.testBit_two_pow_sub_one, List.replicate_succ,
          decide_eq_true (Nat.lt_of_succ_le hj)]
  rw [Nat.one_shiftLeft, hones k le_rfl]

/-- A number below `2 ^ k` is zero when its `k` bits are. -/
theorem toBits_eq_zero_iff (hn : n < 2 ^ k) : toBits k n = List.replicate k false ↔ n = 0 := by
  constructor
  · intro h
    apply Nat.eq_of_testBit_eq
    intro i
    rw [← toBits_zero] at h
    by_cases hi : i < k
    · exact testBit_of_toBits h i hi
    · rw [Nat.zero_testBit]
      exact Nat.testBit_lt_two_pow (Nat.lt_of_lt_of_le hn (Nat.pow_le_pow_right (by omega) (by omega)))
  · rintro rfl
    exact toBits_zero k

/-! ## Zeros at the end -/

/-- The number of zeros that `bits` ends with. -/
def trailingZeros (bits : List Bool) : Nat := (bits.rtakeWhile (fun bit => !bit)).length

theorem trailingZeros_nil : trailingZeros [] = 0 := rfl

theorem trailingZeros_append (xs ys : List Bool) :
    trailingZeros (xs ++ ys) = if true ∈ ys then trailingZeros ys else trailingZeros xs + ys.length := by
  simp only [trailingZeros, List.rtakeWhile, List.length_reverse, List.reverse_append]
  rw [List.takeWhile_append]
  have hall : ((ys.reverse.takeWhile fun bit => !bit).length = ys.reverse.length) ↔ true ∉ ys := by
    have hself : (ys.reverse.takeWhile fun bit => !bit) = ys.reverse ↔ true ∉ ys := by
      rw [List.takeWhile_eq_self_iff]
      simp
    rw [← hself]
    exact ⟨fun h => (List.takeWhile_prefix _).eq_of_length h, fun h => by rw [h]⟩
  split_ifs with hlen hmem hmem
  · exact absurd hmem (hall.mp hlen)
  · rw [List.length_append, List.length_reverse, Nat.add_comm]
  · rfl
  · exact absurd (hall.mpr hmem) hlen

theorem trailingZeros_le (bits : List Bool) : trailingZeros bits ≤ bits.length := by
  rw [trailingZeros, List.rtakeWhile, List.length_reverse]
  exact (List.takeWhile_sublist _).length_le.trans_eq List.length_reverse

end Sddr.Lib
