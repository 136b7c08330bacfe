import Mathlib.LinearAlgebra.Vandermonde
import Sddr.Lib.Elimination

/-!
# Rows any `n` of which are independent

Rows of powers have this property, and it is kept by permuting rows and by invertible operations on columns.
-/

namespace Sddr.Lib

variable {F : Type} [Field F] {n rows : Nat}

/-- Any `n` different rows have only the zero solution. -/
def AnyRows (n rows : Nat) (mat : Rows F) : Prop :=
  ∀ ids : Nat → Nat, (∀ i < n, ids i < rows) → (∀ i < n, ∀ j < n, ids i = ids j → i = j) →
    Regular n fun i => mat (ids i)

/-! ## Rows of powers -/

theorem regular_powers {a : Nat → F} (ha : ∀ i < n, ∀ j < n, a i = a j → i = j) : Regular n fun i j => a i ^ j := by
  intro x hx i hi
  have hzero : (fun j : Fin n => x j) = 0 := by
    refine Matrix.eq_zero_of_forall_index_sum_pow_mul_eq_zero (f := fun j : Fin n => a j) ?_ fun j => ?_
    · exact fun j j' heq => Fin.ext (ha j j.2 j' j'.2 heq)
    · have hrow := hx j j.2
      rwa [dot, Finset.sum_range] at hrow
  exact congrFun hzero ⟨i, hi⟩

/-- The powers of different elements, and one row more that reads the last entry. -/
theorem anyRows_powers {a : Nat → F} (last : Nat)
    (ha : ∀ i < rows, ∀ j < rows, i ≠ last → j ≠ last → a i = a j → i = j) :
    AnyRows n rows fun r c => if r = last then (if c = n - 1 then 1 else 0) else a r ^ c := by
  intro ids hids hinj x hx
  by_cases hlast : ∃ p < n, ids p = last
  · obtain ⟨p, hp, hplast⟩ := hlast
    obtain ⟨n, rfl⟩ : ∃ n', n = n' + 1 := ⟨n - 1, by omega⟩
    have hxlast : x n = 0 := by
      have hrow := hx p hp
      simp only [hplast, if_true, Nat.add_sub_cancel] at hrow
      rwa [dot_unit (Nat.lt_succ_self n) _ _ fun _ _ => rfl] at hrow
    -- without row `p` there are `n` rows of powers left, for the other `n` entries
    let others : Nat → Nat := fun i => if i < p then i else i + 1
    have hothers : ∀ i < n, others i < n + 1 ∧ ids (others i) ≠ last := by
      intro i hi
      have hlt : others i < n + 1 := by simp only [others]; split_ifs <;> omega
      refine ⟨hlt, fun heq => ?_⟩
      have hip := hinj _ hlt p hp (heq.trans hplast.symm)
      simp only [others] at hip
      split_ifs at hip <;> omega
    have hpowers : Regular n fun i j => a (ids (others i)) ^ j := by
      refine regular_powers fun i hi j hj heq => ?_
      obtain ⟨hilt, hine⟩ := hothers i hi
      obtain ⟨hjlt, hjne⟩ := hothers j hj
      have hij := hinj _ hilt _ hjlt (ha _ (hids _ hilt) _ (hids _ hjlt) hine hjne heq)
      simp only [others] at hij
      split_ifs at hij <;> omega
    have hrest := hpowers x fun i hi => by
      obtain ⟨hlt, hne⟩ := hothers i hi
      have hrow := hx _ hlt
      simp only [if_neg hne] at hrow
      rwa [dot_succ, hxlast, mul_zero, add_zero] at hrow
    intro i hi
    rcases Nat.lt_succ_iff_lt_or_eq.mp hi with hlt | rfl
    · exact hrest i hlt
    · exact hxlast
  · have hne : ∀ i < n, ids i ≠ last := fun i hi heq => hlast ⟨i, hi, heq⟩
    refine regular_powers (a := fun i => a (ids i)) (fun i hi j hj heq => ?_) x fun i hi => ?_
    · exact hinj i hi j hj (ha _ (hids i hi) _ (hids j hj) (hne i hi) (hne j hj) heq)
    · have hrow := hx i hi
      simpa only [if_neg (hne i hi)] using hrow

/-! ## Rows and columns -/

theorem AnyRows.congr {mat mat' : Rows F} (h : AnyRows n rows mat) (heq : ∀ r < rows, ∀ c < n, mat' r c = mat r c) :
    AnyRows n rows mat' := by
  intro ids hids hinj x hx
  refine h ids hids hinj x fun i hi => ?_
  rw [← hx i hi]
  exact (dot_congr (heq _ (hids i hi))).symm

theorem AnyRows.permute {mat : Rows F} (h : AnyRows n rows mat) {σ : Nat → Nat} (hσ : ∀ r < rows, σ r < rows)
    (hinj : ∀ r < rows, ∀ r' < rows, σ r = σ r' → r = r') : AnyRows n rows fun r => mat (σ r) :=
  fun ids hids hids' => h (fun i => σ (ids i)) (fun i hi => hσ _ (hids i hi)) fun i hi j hj heq =>
    hids' i hi j hj (hinj _ (hids i hi) _ (hids j hj) heq)

theorem AnyRows.swap {mat : Rows F} (h : AnyRows n rows mat) {i j : Nat} (hi : i < rows) (hj : j < rows) :
    AnyRows n rows fun r => if r = i then mat j else if r = j then mat i else mat r := by
  have hswap := h.permute (σ := fun r => if r = i then j else if r = j then i else r)
    (fun r hr => by split_ifs <;> assumption)
    (fun r _ r' _ heq => by split_ifs at heq <;> omega)
  refine hswap.congr fun r _ c _ => ?_
  split_ifs <;> rfl

/-- `f` is what the operation on the columns does to a vector of unknowns. -/
theorem AnyRows.columns {mat mat' : Rows F} (h : AnyRows n rows mat) (f : (Nat → F) → Nat → F)
    (hdot : ∀ r x, dot n (mat' r) x = dot n (mat r) (f x)) (hf : ∀ x, (∀ i < n, f x i = 0) → ∀ i < n, x i = 0) :
    AnyRows n rows mat' := fun ids hids hinj x hx =>
  hf x (h ids hids hinj (f x) fun i hi => (hdot _ x).symm.trans (hx i hi))

theorem AnyRows.scaleRows {mat : Rows F} (h : AnyRows n rows mat) {t : Nat → F} (ht : ∀ r < rows, t r ≠ 0) :
    AnyRows n rows fun r c => mat r c * t r := by
  intro ids hids hinj x hx
  refine h ids hids hinj x fun i hi => ?_
  have hrow := hx i hi
  dsimp only at hrow
  rw [dot_scale] at hrow
  exact (mul_eq_zero.mp hrow).resolve_left (ht _ (hids i hi))

theorem AnyRows.scaleColumn {mat : Rows F} (h : AnyRows n rows mat) (i : Nat) {t : F} (ht : t ≠ 0) :
    AnyRows n rows fun r c => if c = i then t * mat r c else mat r c := by
  refine h.columns (fun x c => if c = i then t * x c else x c) (fun r x => ?_) fun x hx c hc => ?_
  · refine Finset.sum_congr rfl fun c _ => ?_
    dsimp only
    split_ifs <;> ring
  · have hxc := hx c hc
    split_ifs at hxc with hci
    · exact (mul_eq_zero.mp hxc).resolve_left ht
    · exact hxc

theorem AnyRows.addColumn {mat : Rows F} (h : AnyRows n rows mat) {i j : Nat} (hi : i < n) (hj : j < n)
    (hij : j ≠ i) (t : F) :
    AnyRows n rows fun r c => if c = j then mat r c + t * mat r i else mat r c := by
  refine h.columns (fun x c => if c = i then x c + t * x j else x c) (fun r x => ?_) fun x hx c hc => ?_
  · have hsum : ∀ c, (if c = j then mat r c + t * mat r i else mat r c) * x c
        = mat r c * x c + if c = j then t * mat r i * x j else 0 := by
      intro c
      split_ifs with hcj
      · rw [hcj]
        ring
      · rw [add_zero]
    have hsum' : ∀ c, mat r c * (if c = i then x c + t * x j else x c)
        = mat r c * x c + if c = i then t * mat r i * x j else 0 := by
      intro c
      split_ifs with hci
      · rw [hci]
        ring
      · rw [add_zero]
    simp only [dot, hsum, hsum', Finset.sum_add_distrib, Finset.sum_ite_eq', Finset.mem_range, hi, hj, if_true]
  · have hxj := hx j hj
    have hxc := hx c hc
    rw [if_neg hij] at hxj
    split_ifs at hxc
    · rwa [hxj, mul_zero, add_zero] at hxc
    · exact hxc

/-- No column is zero. -/
theorem AnyRows.exists_entry {mat : Rows F} (h : AnyRows n rows mat) (hrows : n ≤ rows) {c : Nat} (hc : c < n) :
    ∃ r < rows, mat r c ≠ 0 := by
  by_contra hnone
  have hcolumn : ∀ r < rows, mat r c = 0 := fun r hr => by
    by_contra hne
    exact hnone ⟨r, hr, hne⟩
  have hunit := h id (fun i hi => Nat.lt_of_lt_of_le hi hrows) (fun _ _ _ _ heq => heq)
    (fun i => if i = c then 1 else 0) (fun r hr => ?_) c hc
  · rw [if_pos rfl] at hunit
    exact one_ne_zero hunit
  · refine Finset.sum_eq_zero fun i _ => ?_
    dsimp only
    split_ifs with hic
    · rw [hic, id, hcolumn r (Nat.lt_of_lt_of_le hr hrows), zero_mul]
    · rw [mul_zero]

end Sddr.Lib
