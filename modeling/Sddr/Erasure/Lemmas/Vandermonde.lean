import Sddr.Erasure.Lemmas.ReedSol
import Sddr.Lib.Vandermonde

/-! # The Vandermonde coding matrix is MDS -/

namespace Sddr.Erasure
open Sddr.Lib

variable {g : Galois} {w rows cols : Nat} [Fact (g.IsField w)] [NeZero w]

/-- The entries as elements of the field. -/
def toField (g : Galois) (dist : IntMatrix w) : Rows (GF g w) := fun r c => GF.of (dist r c)

variable (g rows cols) in
/-- The first `i` rows are those of the identity, and any `cols` rows are independent. -/
structure Identity (i : Nat) (dist : IntMatrix w) : Prop where
  anyRows : AnyRows cols rows (toField g dist)
  unit : ∀ r < i, ∀ c < cols, dist r c = if r = c then 1 else 0

/-! ## The extended Vandermonde matrix -/

omit [Fact (g.IsField w)] [NeZero w] in
theorem ofNat_inj {i j : Nat} (hi : i < 2 ^ w) (hj : j < 2 ^ w) (h : BitVec.ofNat w i = BitVec.ofNat w j) : i = j := by
  have hnat := congrArg BitVec.toNat h
  rwa [BitVec.toNat_ofNat, BitVec.toNat_ofNat, Nat.mod_eq_of_lt hi, Nat.mod_eq_of_lt hj] at hnat

theorem of_vandermondeRow (i j : Nat) :
    (GF.of (vandermondeRow g w i j) : GF g w) = GF.of (BitVec.ofNat w i) ^ j := by
  induction j with
  | zero => exact (pow_zero _).symm
  | succ j ih => rw [vandermondeRow, GF.of_multiply, ih, pow_succ]

theorem extendedVandermonde_spec (hcols : 0 < cols) (hlt : cols < rows) (hrows : rows ≤ 2 ^ w) :
    ∃ dist, extendedVandermonde g w rows cols = some dist ∧ Identity g rows cols 1 dist := by
  have hpow : 1 <<< w = 2 ^ w := by rw [Nat.shiftLeft_eq, Nat.one_mul]
  unfold extendedVandermonde
  rw [if_neg (by omega), if_neg (by omega)]
  refine ⟨_, rfl, ?_, ?_⟩
  · refine (anyRows_powers (rows - 1) (a := fun i => GF.of (BitVec.ofNat w i)) ?_).congr ?_
    · exact fun i hi j hj _ _ heq => ofNat_inj (by omega) (by omega) (GF.of_inj.mp heq)
    · intro r hr c hc
      unfold toField
      dsimp only
      by_cases hr0 : r = 0
      · rw [if_pos hr0, if_neg (by omega : ¬r = rows - 1), hr0]
        cases c with
        | zero => exact (pow_zero _).symm
        | succ c => exact (zero_pow (Nat.succ_ne_zero c)).symm
      · rw [if_neg hr0]
        by_cases hlast : r = rows - 1
        · rw [if_pos hlast, if_pos hlast]
          split_ifs <;> rfl
        · rw [if_neg hlast, if_neg hlast]
          exact of_vandermondeRow r c
  · intro r hr c _
    obtain rfl : r = 0 := by omega
    simp only [if_true, eq_comm]

/-! ## The pass that makes the upper square the identity -/

theorem Identity.swap {i j : Nat} {dist : IntMatrix w} (h : Identity g rows cols i dist) (hij : i ≤ j) (hj : j < rows) :
    Identity g rows cols i (swapRows i j dist) := by
  refine ⟨(h.anyRows.swap (by omega : i < rows) hj).congr fun r _ c _ => ?_, fun r hr c hc => ?_⟩
  · unfold toField swapRows
    split_ifs <;> rfl
  · rw [swapRows, if_neg (by omega), if_neg (by omega)]
    exact h.unit r hr c hc

theorem Identity.scaleColumn {i : Nat} {dist : IntMatrix w} (h : Identity g rows cols i dist) {tmp : BitVec w}
    (htmp : tmp ≠ 0) : Identity g rows cols i (scaleColumn g i tmp dist) := by
  have hne : (GF.of tmp : GF g w) ≠ 0 := fun heq => htmp (GF.of_inj.mp heq)
  refine ⟨(h.anyRows.scaleColumn i hne).congr fun r _ c _ => ?_, fun r hr c hc => ?_⟩
  · unfold toField Erasure.scaleColumn
    split_ifs
    · exact GF.of_multiply _ _
    · rfl
  · unfold Erasure.scaleColumn
    rw [h.unit r hr c hc]
    split_ifs with hci hrc
    · omega
    · exact GF.isField.multiply_zero tmp
    · rfl
    · rfl

theorem Identity.clearColumn {i j : Nat} {dist : IntMatrix w} (h : Identity g rows cols i dist) (hi : i < cols)
    (hj : j < cols) : Identity g rows cols i (clearColumn g i dist j) := by
  unfold Erasure.clearColumn
  dsimp only
  split_ifs with hclear
  · refine ⟨(h.anyRows.addColumn hi hj hclear.1 (GF.of (dist i j))).congr fun r _ c _ => ?_, fun r hr c hc => ?_⟩
    · unfold toField
      dsimp only
      split_ifs
      · rw [GF.of_xor, GF.of_multiply]
      · rfl
    · rw [h.unit r hr c hc, h.unit r hr i hi, if_neg (by omega : r ≠ i), GF.isField.multiply_zero, xor_zero_word]
      exact ite_self _
  · exact h

omit [NeZero w] in
/-- A column that is cleared gets a zero in row `i`, the others keep what they have. -/
theorem clearColumn_row {i j : Nat} {dist : IntMatrix w} (hone : dist i i = 1) (c : Nat) :
    clearColumn g i dist j i c = if c = j ∧ j ≠ i then 0 else dist i c := by
  unfold clearColumn
  by_cases hji : j ≠ i
  · by_cases hzero : dist i j = 0
    · rw [if_neg fun hclear => hclear.2 hzero]
      split_ifs with hcj
      · rw [hcj.1, hzero]
      · rfl
    · rw [if_pos ⟨hji, hzero⟩]
      by_cases hcj : c = j
      · rw [if_pos hcj, if_pos ⟨hcj, hji⟩, hcj, hone, GF.isField.multiply_one, xor_self_word]
      · rw [if_neg hcj, if_neg fun hboth => hcj hboth.1]
  · rw [if_neg fun hclear => hji hclear.1, if_neg fun hboth => hji hboth.2]

theorem clearColumn_foldl {i : Nat} {dist : IntMatrix w} (h : Identity g rows cols i dist) (hi : i < cols)
    (hone : dist i i = 1) : ∀ n ≤ cols, Identity g rows cols i ((List.range n).foldl (clearColumn g i) dist) ∧
      (List.range n).foldl (clearColumn g i) dist i i = 1 ∧
      ∀ c < n, c ≠ i → (List.range n).foldl (clearColumn g i) dist i c = 0 := by
  intro n hn
  induction n with
  | zero => exact ⟨h, hone, fun c hc => absurd hc (Nat.not_lt_zero c)⟩
  | succ n ih =>
      obtain ⟨hidentity, hself, hothers⟩ := ih (by omega)
      rw [List.range_succ, List.foldl_append, List.foldl_cons, List.foldl_nil]
      refine ⟨hidentity.clearColumn hi (by omega), ?_, fun c hc hci => ?_⟩
      · rw [clearColumn_row hself, if_neg (by omega), hself]
      · rw [clearColumn_row hself]
        split_ifs with hcn
        · rfl
        · exact hothers c (by omega) hci

theorem identityRow_spec {i : Nat} {dist : IntMatrix w} (h : Identity g rows cols i dist) (hi : i < cols)
    (hlt : cols < rows) : ∃ dist', identityRow g rows cols dist i = some dist' ∧ Identity g rows cols (i + 1) dist' := by
  obtain ⟨j, hfind⟩ : ∃ j, (List.range' i (rows - i)).find? (fun j => dist j i ≠ 0) = some j := by
    obtain ⟨j, hj, hne⟩ := h.anyRows.exists_entry (by omega) hi
    have hij : i ≤ j := by
      by_contra hji
      refine hne ?_
      unfold toField
      rw [h.unit j (by omega) i hi, if_neg (by omega), GF.of_zero]
    refine Option.isSome_iff_exists.mp (List.find?_isSome.mpr ⟨j, List.mem_range'_1.mpr (by omega), ?_⟩)
    exact decide_eq_true fun hzero => hne (GF.of_inj.mpr hzero)
  have hmem := List.mem_range'_1.mp (List.mem_of_find?_eq_some hfind)
  have hpivot : dist j i ≠ 0 := by simpa using List.find?_some hfind
  obtain ⟨swapped, hswapped, hidentity, hentry⟩ : ∃ swapped,
      (if j ≠ i then swapRows i j dist else dist) = swapped ∧ Identity g rows cols i swapped ∧ swapped i i ≠ 0 := by
    split_ifs with hji
    · exact ⟨_, rfl, h.swap hmem.1 (by omega), by rwa [swapRows, if_pos rfl]⟩
    · refine ⟨_, rfl, h, ?_⟩
      rwa [not_not.mp hji] at hpivot
  obtain ⟨scaled, hscaled, hidentity, hone⟩ : ∃ scaled,
      (if swapped i i ≠ 1 then scaleColumn g i (g.divide w 1 (swapped i i)) swapped else swapped) = scaled ∧
        Identity g rows cols i scaled ∧ scaled i i = 1 := by
    have hinverse := (GF.isField (g := g)).divide_multiply 1 _ hentry
    split_ifs with hne
    · refine ⟨_, rfl, hidentity.scaleColumn fun hzero => ?_, ?_⟩
      · rw [hzero, GF.isField.zero_multiply] at hinverse
        exact GF.one_ne_zero_word hinverse.symm
      · rw [scaleColumn, if_pos rfl, hinverse]
    · exact ⟨_, rfl, hidentity, not_not.mp hne⟩
  obtain ⟨hall, hself, hothers⟩ := clearColumn_foldl hidentity hi hone cols (Nat.le_refl cols)
  refine ⟨_, ?_, hall.anyRows, fun r hr c hc => ?_⟩
  · rw [identityRow, hfind, Option.map_some, ← hscaled, ← hswapped]
  · rcases Nat.lt_succ_iff_lt_or_eq.mp hr with hlt | rfl
    · exact hall.unit r hlt c hc
    · split_ifs with hrc
      · rw [← hrc, hself]
      · exact hothers c hc (Ne.symm hrc)

theorem identityRows_spec {i : Nat} {dist : IntMatrix w} (h : Identity g rows cols i dist) (hlt : cols < rows) :
    ∀ n, i + n ≤ cols → ∃ dist', (List.range' i n).foldlM (identityRow g rows cols) dist = some dist' ∧
      Identity g rows cols (i + n) dist' := by
  intro n hn
  induction n generalizing i dist with
  | zero => exact ⟨dist, rfl, h⟩
  | succ n ih =>
      obtain ⟨next, hrow, hnext⟩ := identityRow_spec h (by omega) hlt
      obtain ⟨dist', hrows, hdist⟩ := ih hnext (by omega)
      refine ⟨dist', ?_, by rwa [Nat.add_assoc, Nat.add_comm 1 n] at hdist⟩
      rw [List.range'_succ, List.foldlM_cons, hrow]
      exact hrows

/-! ## Coding matrices -/

variable {k m : Nat} {matrix : IntMatrix w}

theorem mds_iff : MDS g k m matrix ↔ AnyRows k (k + m) (toField g (deviceRow k matrix)) := by
  have hdot : ∀ (d : Nat) (x : Nat → BitVec w),
      g.dot k (deviceRow k matrix d) x = 0 ↔ dot k (toField g (deviceRow k matrix) d) (fun i => GF.of (x i)) = 0 := by
    intro d x
    rw [← GF.of_inj (g := g), GF.of_dot]
    rfl
  constructor
  · intro h ids hids hinj x hx
    exact h ids hids hinj x fun i hi => (hdot _ _).mpr (hx i hi)
  · intro h ids hids hinj x hx
    exact h ids hids hinj (fun i => GF.of (x i)) fun i hi => (hdot _ _).mp (hx i hi)

theorem Identity.mds {dist : IntMatrix w} (h : Identity g (k + m) k k dist) : MDS g k m fun i j => dist (k + i) j := by
  refine mds_iff.mpr (h.anyRows.congr fun r _ c hc => ?_)
  unfold toField deviceRow
  split_ifs with hr hcr
  · rw [h.unit r hr c hc, if_pos hcr.symm]
  · rw [h.unit r hr c hc, if_neg (Ne.symm hcr)]
  · dsimp only
    rw [Nat.add_sub_cancel' (Nat.not_lt.mp hr)]

theorem MDS.scaleColumn (h : MDS g k m matrix) {j : Nat} {t : BitVec w} (hj : j < k) (ht : t ≠ 0) :
    MDS g k m fun r c => if c = j then g.multiply w t (matrix r c) else matrix r c := by
  have hne : (GF.of t : GF g w) ≠ 0 := fun heq => ht (GF.of_inj.mp heq)
  -- the row of data device `j` is scaled back
  have hscaled := ((mds_iff.mp h).scaleColumn j hne).scaleRows (t := fun r => if r = j then (GF.of t)⁻¹ else 1)
    fun r _ => by split_ifs; exacts [inv_ne_zero hne, one_ne_zero]
  refine mds_iff.mpr (hscaled.congr fun r _ c _ => ?_)
  unfold toField deviceRow
  by_cases hr : r < k
  · simp only [if_pos hr]
    by_cases hcr : c = r
    · rw [hcr, if_pos rfl]
      split_ifs
      · rw [GF.of_one, mul_one, mul_inv_cancel₀ hne]
      · rw [mul_one]
    · simp only [if_neg hcr, GF.of_zero, mul_zero, ite_self, zero_mul]
  · simp only [if_neg hr, if_neg (by omega : ¬r = j), mul_one]
    split_ifs
    · exact GF.of_multiply _ _
    · rfl

theorem MDS.scaleRow (h : MDS g k m matrix) (i : Nat) {t : BitVec w} (ht : t ≠ 0) :
    MDS g k m fun r c => if r = i then g.multiply w (matrix r c) t else matrix r c := by
  have hne : (GF.of t : GF g w) ≠ 0 := fun heq => ht (GF.of_inj.mp heq)
  have hscaled := (mds_iff.mp h).scaleRows (t := fun r => if r = k + i then GF.of t else 1)
    fun r _ => by split_ifs; exacts [hne, one_ne_zero]
  refine mds_iff.mpr (hscaled.congr fun r _ c _ => ?_)
  unfold toField deviceRow
  by_cases hr : r < k
  · rw [if_pos hr, if_pos hr, if_neg (by omega : ¬r = k + i), mul_one]
  · simp only [if_neg hr]
    by_cases hri : r = k + i
    · rw [if_pos hri, if_pos (by omega)]
      exact GF.of_multiply _ _
    · rw [if_neg hri, if_neg (by omega), mul_one]

theorem divide_one_ne_zero {a : BitVec w} (ha : a ≠ 0) : g.divide w 1 a ≠ 0 := by
  intro hzero
  have hinverse := (GF.isField (g := g)).divide_multiply 1 a ha
  rw [hzero, GF.isField.zero_multiply] at hinverse
  exact GF.one_ne_zero_word hinverse.symm

theorem MDS.onesInRow {dist : IntMatrix w} (h : MDS g k m fun i c => dist (k + i) c) (hm : 0 < m) {j : Nat}
    (hj : j < k) : MDS g k m fun i c => onesInRow g k dist j (k + i) c := by
  unfold Erasure.onesInRow
  split_ifs
  · simpa only [Nat.le_add_right, true_and, Nat.add_zero] using h.scaleColumn hj (divide_one_ne_zero (h.entry_ne_zero hm hj))
  · exact h

theorem MDS.oneInFirstColumn {dist : IntMatrix w} (h : MDS g k m fun i c => dist (k + i) c) (hk : 0 < k) {i : Nat}
    (hi : i < m) : MDS g k m fun r c => oneInFirstColumn g dist (k + i) (k + r) c := by
  unfold Erasure.oneInFirstColumn
  split_ifs
  · simpa only [Nat.add_left_cancel_iff] using h.scaleRow i (divide_one_ne_zero (h.entry_ne_zero hi hk))
  · exact h

/-- `reed_sol_vandermonde_coding_matrix` succeeds as long as the field has enough elements. -/
theorem vandermondeCodingMatrix_mds (hk : 0 < k) (hm : 0 < m) (hsize : k + m ≤ 2 ^ w) :
    ∃ matrix, vandermondeCodingMatrix g w k m = some matrix ∧ MDS g k m matrix := by
  obtain ⟨start, hstart, hfirst⟩ := extendedVandermonde_spec (g := g) hk (by omega) hsize
  obtain ⟨dist, hdist, hidentity⟩ := identityRows_spec hfirst (by omega) (k - 1) (by omega)
  rw [Nat.add_sub_cancel' hk] at hidentity
  have hones : MDS g k m fun i c => (List.range k).foldl (onesInRow g k) dist (k + i) c :=
    List.foldlRecOn (motive := fun dist => MDS g k m fun i c => dist (k + i) c) (List.range k) (onesInRow g k)
      hidentity.mds fun _ h j hj => h.onesInRow hm (List.mem_range.mp hj)
  refine ⟨_, ?_, List.foldlRecOn (motive := fun dist => MDS g k m fun i c => dist (k + i) c)
    (List.range' (k + 1) (k + m - (k + 1))) (oneInFirstColumn g) hones fun _ h i hi => ?_⟩
  · rw [vandermondeCodingMatrix, bigVandermondeDistribution, if_neg (by omega), hstart, Option.bind_some, hdist]
    rfl
  · have hrange := List.mem_range'_1.mp hi
    obtain ⟨i, rfl⟩ : ∃ i', i = k + i' := ⟨i - k, by omega⟩
    exact h.oneInFirstColumn hk (by omega)

end Sddr.Erasure
