import Mathlib.LinearAlgebra.FiniteDimensional.Lemmas
import Mathlib.Algebra.BigOperators.Ring.Finset

/-!
# Row operations on linear systems

A system `mat · x = inv · y` of `n` rows over a field. Row operations keep its solutions and keep it regular, and a
regular system always has a pivot left.
-/

namespace Sddr.Lib

variable {F : Type} [Field F] {n : Nat}

abbrev Rows (F : Type) := Nat → Nat → F

def dot (n : Nat) (row x : Nat → F) : F := ∑ i ∈ Finset.range n, row i * x i

/-- `x` and `y` solve the system. -/
def Solves (n : Nat) (mat inv : Rows F) (x y : Nat → F) : Prop := ∀ r < n, dot n (mat r) x = dot n (inv r) y

/-- Only zero is mapped to zero. -/
def Regular (n : Nat) (mat : Rows F) : Prop := ∀ x, (∀ r < n, dot n (mat r) x = 0) → ∀ i < n, x i = 0

/-! ## Products -/

theorem dot_congr {row row' x : Nat → F} (h : ∀ i < n, row i = row' i) : dot n row x = dot n row' x :=
  Finset.sum_congr rfl fun i hi => by rw [h i (Finset.mem_range.mp hi)]

theorem dot_succ (row x : Nat → F) : dot (n + 1) row x = dot n row x + row n * x n := Finset.sum_range_succ _ _

theorem dot_scale (row x : Nat → F) (t : F) : dot n (fun c => row c * t) x = t * dot n row x := by
  rw [dot, dot, Finset.mul_sum]
  exact Finset.sum_congr rfl fun i _ => by rw [mul_comm (row i) t, mul_assoc]

theorem dot_add (row row' x : Nat → F) (t : F) :
    dot n (fun c => row c + t * row' c) x = dot n row x + t * dot n row' x := by
  rw [dot, dot, dot, Finset.mul_sum, ← Finset.sum_add_distrib]
  exact Finset.sum_congr rfl fun i _ => by rw [add_mul, mul_assoc]

/-- A row with a single one reads one entry. -/
theorem dot_unit {j : Nat} (hj : j < n) (row x : Nat → F) (h : ∀ i < n, row i = if i = j then 1 else 0) :
    dot n row x = x j := by
  rw [dot, Finset.sum_eq_single_of_mem j (Finset.mem_range.mpr hj)]
  · rw [h j hj, if_pos rfl, one_mul]
  · intro i hi hij
    rw [h i (Finset.mem_range.mp hi), if_neg hij, zero_mul]

/-! ## Swapping, scaling and adding -/

theorem Solves.swap {mat inv : Rows F} {x y : Nat → F} (h : Solves n mat inv x y) {i j : Nat} (hi : i < n)
    (hj : j < n) :
    Solves n (fun r => if r = i then mat j else if r = j then mat i else mat r)
      (fun r => if r = i then inv j else if r = j then inv i else inv r) x y := by
  intro r hr
  dsimp only
  split_ifs
  · exact h j hj
  · exact h i hi
  · exact h r hr

theorem Solves.scale {mat inv mat' inv' : Rows F} {x y : Nat → F} (h : Solves n mat inv x y) {i : Nat} (t : F)
    (hmat : ∀ r < n, ∀ c < n, mat' r c = if r = i then mat r c * t else mat r c)
    (hinv : ∀ r < n, ∀ c < n, inv' r c = if r = i then inv r c * t else inv r c) : Solves n mat' inv' x y := by
  intro r hr
  rw [dot_congr (hmat r hr), dot_congr (hinv r hr)]
  by_cases hri : r = i
  · simp only [hri, if_true]
    rw [dot_scale, dot_scale, h i (hri ▸ hr)]
  · simp only [hri, if_false]
    exact h r hr

theorem Solves.add {mat inv mat' inv' : Rows F} {x y : Nat → F} (h : Solves n mat inv x y) {i j : Nat} (hi : i < n)
    (t : F) (hmat : ∀ r < n, ∀ c < n, mat' r c = if r = j then mat r c + t * mat i c else mat r c)
    (hinv : ∀ r < n, ∀ c < n, inv' r c = if r = j then inv r c + t * inv i c else inv r c) :
    Solves n mat' inv' x y := by
  intro r hr
  rw [dot_congr (hmat r hr), dot_congr (hinv r hr)]
  by_cases hrj : r = j
  · simp only [hrj, if_true]
    rw [dot_add, dot_add, h j (hrj ▸ hr), h i hi]
  · simp only [hrj, if_false]
    exact h r hr

theorem Regular.swap {mat : Rows F} (h : Regular n mat) {i j : Nat} (hi : i < n) (hj : j < n) :
    Regular n (fun r => if r = i then mat j else if r = j then mat i else mat r) := by
  intro x hx
  refine h x fun r hr => ?_
  by_cases hri : r = i
  · have hxj := hx j hj
    by_cases hji : j = i
    · subst hri
      simpa [hji] using hxj
    · simpa [hji, hri] using hxj
  · by_cases hrj : r = j
    · simpa [hrj] using hx i hi
    · simpa [hri, hrj] using hx r hr

theorem Regular.scale {mat mat' : Rows F} (h : Regular n mat) {i : Nat} {t : F} (ht : t ≠ 0)
    (hmat : ∀ r < n, ∀ c < n, mat' r c = if r = i then mat r c * t else mat r c) : Regular n mat' := by
  intro x hx
  refine h x fun r hr => ?_
  have hxr := hx r hr
  rw [dot_congr (hmat r hr)] at hxr
  by_cases hri : r = i
  · simp only [hri, if_true] at hxr ⊢
    rw [dot_scale] at hxr
    exact (mul_eq_zero.mp hxr).resolve_left ht
  · simpa only [hri, if_false] using hxr

theorem Regular.add {mat mat' : Rows F} (h : Regular n mat) {i j : Nat} (hi : i < n) (hij : i ≠ j) (t : F)
    (hmat : ∀ r < n, ∀ c < n, mat' r c = if r = j then mat r c + t * mat i c else mat r c) : Regular n mat' := by
  intro x hx
  have hxi : dot n (mat i) x = 0 := by
    have := hx i hi
    rw [dot_congr (hmat i hi)] at this
    simpa only [hij, if_false] using this
  refine h x fun r hr => ?_
  have hxr := hx r hr
  rw [dot_congr (hmat r hr)] at hxr
  by_cases hrj : r = j
  · simp only [hrj, if_true] at hxr ⊢
    rwa [dot_add, hxi, mul_zero, add_zero] at hxr
  · simpa only [hrj, if_false] using hxr

/-! ## Pivots -/

/-- `i` equations in `i + 1` unknowns have a solution other than zero. -/
theorem exists_nonzero_solution (i : Nat) (row : Nat → Nat → F) :
    ∃ x : Nat → F, (∀ r < i, dot (i + 1) (row r) x = 0) ∧ ∃ c < i + 1, x c ≠ 0 := by
  let A : Matrix (Fin i) (Fin (i + 1)) F := Matrix.of fun r c => row r c
  let f : (Fin (i + 1) → F) →ₗ[F] (Fin i → F) := A.mulVecLin
  have hker : LinearMap.ker f ≠ ⊥ := LinearMap.ker_ne_bot_of_finrank_lt (by simp)
  obtain ⟨v, hv, hne⟩ := Submodule.exists_mem_ne_zero_of_ne_bot hker
  refine ⟨fun c => if h : c < i + 1 then v ⟨c, h⟩ else 0, fun r hr => ?_, ?_⟩
  · have hrow := congrFun (LinearMap.mem_ker.mp hv) ⟨r, hr⟩
    rw [dot, Finset.sum_range]
    simp only [Fin.is_lt, dite_true, Fin.eta]
    exact hrow
  · obtain ⟨c, hc⟩ := Function.ne_iff.mp hne
    exact ⟨c, c.2, by simpa [Nat.le_of_lt_succ c.2] using hc⟩

/-- A regular system whose first `i` columns are clear below the diagonal has a pivot for column `i`. -/
theorem Regular.exists_pivot {mat : Rows F} (h : Regular n mat) {i : Nat} (hi : i < n)
    (hupper : ∀ c < i, ∀ r < n, c < r → mat r c = 0) : ∃ j, i ≤ j ∧ j < n ∧ mat j i ≠ 0 := by
  by_contra hnone
  have hcolumn : ∀ j, i ≤ j → j < n → mat j i = 0 := by
    intro j hij hj
    by_contra hne
    exact hnone ⟨j, hij, hj, hne⟩
  obtain ⟨x, hx, c, hc, hne⟩ := exists_nonzero_solution i mat
  let x' : Nat → F := fun k => if k < i + 1 then x k else 0
  have hdot : ∀ row : Nat → F, dot n row x' = dot (i + 1) row x := by
    intro row
    rw [dot, dot, ← Finset.sum_subset (Finset.range_subset_range.mpr hi)]
    · exact Finset.sum_congr rfl fun k hk => by simp only [x', if_pos (Finset.mem_range.mp hk)]
    · intro k _ hk
      simp only [x', if_neg (fun hlt => hk (Finset.mem_range.mpr hlt)), mul_zero]
  have hzero : ∀ r < n, dot n (mat r) x' = 0 := by
    intro r hr
    rw [hdot]
    by_cases hri : r < i
    · exact hx r hri
    · refine Finset.sum_eq_zero fun k hk => ?_
      have hk := Finset.mem_range.mp hk
      rcases Nat.lt_succ_iff_lt_or_eq.mp hk with hlt | rfl
      · rw [hupper k hlt r hr (by omega), zero_mul]
      · rw [hcolumn r (by omega) hr, zero_mul]
  have hxc := h x' hzero c (by omega)
  simp only [x', if_pos hc] at hxc
  exact hne hxc

end Sddr.Lib
