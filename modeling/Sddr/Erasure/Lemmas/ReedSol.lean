import Sddr.Erasure.Lemmas.Galois

/-! # The first coding row consists of ones -/

namespace Sddr.Erasure
open Sddr.Lib

variable {g : Galois} {w k m : Nat} {matrix : IntMatrix w}

/-- No entry of an MDS coding matrix is zero: the other data devices and that coding device would not do. -/
theorem MDS.entry_ne_zero [Fact (g.IsField w)] [NeZero w] (h : MDS g k m matrix) {i c : Nat} (hi : i < m)
    (hc : c < k) : matrix i c ≠ 0 := by
  intro hzero
  let x : Nat → BitVec w := fun j => if j = c then 1 else 0
  have hdot : ∀ row : Nat → BitVec w, g.dot k row x = row c := by
    intro row
    apply GF.of_inj.mp
    rw [GF.of_dot, dot, Finset.sum_eq_single_of_mem c (Finset.mem_range.mpr hc)]
    · simp only [x, if_true, GF.of_one, mul_one]
    · intro j _ hj
      simp only [x, if_neg hj, GF.of_zero, mul_zero]
  have hx := h (fun j => if j = c then k + i else j) (fun j hj => by split_ifs <;> omega)
    (fun j hj j' hj' heq => by split_ifs at heq <;> omega) x (fun j hj => ?_) c hc
  · simp only [x, if_true] at hx
    exact GF.one_ne_zero_word hx
  · rw [hdot]
    by_cases hjc : j = c
    · simp only [hjc, if_true, deviceRow, if_neg (Nat.not_lt.mpr (Nat.le_add_right k i)), Nat.add_sub_cancel_left]
      exact hzero
    · simp only [hjc, if_false, deviceRow, if_pos hj, if_neg (Ne.symm hjc)]

theorem onesInRow_other (dist : IntMatrix w) {j c : Nat} (hc : c ≠ j) : onesInRow g k dist j k c = dist k c := by
  unfold onesInRow
  split_ifs with hone
  · simp only [hc, and_false, if_false]
  · rfl

/-- The entry becomes one, unless it was zero. -/
theorem onesInRow_self (hfield : g.IsField w) (dist : IntMatrix w) (j : Nat) :
    onesInRow g k dist j k j = 1 ∨ onesInRow g k dist j k j = 0 := by
  unfold onesInRow
  by_cases hone : dist k j = 1
  · simp only [hone, ne_eq, not_true, if_false]
    exact Or.inl trivial
  · simp only [ne_eq, hone, not_false_iff, if_true, Nat.le_refl, and_self]
    by_cases hzero : dist k j = 0
    · rw [hzero]
      exact Or.inr (hfield.multiply_zero _)
    · exact Or.inl (hfield.divide_multiply 1 _ hzero)

theorem onesInRow_foldl (hfield : g.IsField w) (dist : IntMatrix w) (n : Nat) :
    ∀ c < n, (List.range n).foldl (onesInRow g k) dist k c = 1 ∨ (List.range n).foldl (onesInRow g k) dist k c = 0 := by
  induction n with
  | zero => exact fun c hc => absurd hc (Nat.not_lt_zero c)
  | succ n ih =>
      intro c hc
      rw [List.range_succ, List.foldl_append, List.foldl_cons, List.foldl_nil]
      by_cases hcn : c = n
      · rw [hcn]
        exact onesInRow_self hfield _ n
      · rw [onesInRow_other _ hcn]
        exact ih c (by omega)

theorem oneInFirstColumn_foldl (dist : IntMatrix w) (l : List Nat) (hl : ∀ i ∈ l, i ≠ k) :
    l.foldl (oneInFirstColumn g) dist k = dist k := by
  induction l generalizing dist with
  | nil => rfl
  | cons i l ih =>
      rw [List.foldl_cons, ih _ fun i' hi' => hl i' (List.mem_cons_of_mem _ hi')]
      have hik := hl i List.mem_cons_self
      funext c
      unfold oneInFirstColumn
      split_ifs
      · simp only [if_neg (Ne.symm hik)]
      · rfl

/-- `reed_sol_vandermonde_coding_matrix` makes the first coding row all ones. -/
theorem vandermondeCodingMatrix_ones [Fact (g.IsField w)] [NeZero w] (hm : 0 < m)
    (hmatrix : vandermondeCodingMatrix g w k m = some matrix) (hmds : MDS g k m matrix) :
    ∀ c < k, matrix 0 c = 1 := by
  intro c hc
  unfold vandermondeCodingMatrix bigVandermondeDistribution at hmatrix
  rw [if_neg (by omega)] at hmatrix
  obtain ⟨vdm, hvdm, rfl⟩ := Option.map_eq_some_iff.mp hmatrix
  obtain ⟨start, _, hbig⟩ := Option.bind_eq_some_iff.mp hvdm
  obtain ⟨dist, _, rfl⟩ := Option.map_eq_some_iff.mp hbig
  have hne := hmds.entry_ne_zero hm hc
  dsimp only at hne ⊢
  rw [Nat.add_zero, oneInFirstColumn_foldl _ _ fun i hi => by have := (List.mem_range'_1.mp hi).1; omega] at hne ⊢
  exact (onesInRow_foldl GF.isField dist k c hc).resolve_right hne

end Sddr.Erasure
