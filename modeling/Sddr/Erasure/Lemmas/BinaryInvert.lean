import Mathlib.Algebra.Field.ZMod
import Mathlib.Data.BitVec
import Sddr.Erasure.Lemmas.Shift
import Sddr.Erasure.Tables

/-!
# galois_invert_binary_matrix inverts

In both passes the rows of `inv` say which rows of the matrix at the start add up to the current row. The second pass
does not change `mat`; what its rows stand for are those of `mat` with the columns done cleared above the diagonal.
-/

namespace Sddr.Erasure.Tables
open Sddr.Lib

variable {w : Nat} {mat inv : BinaryMatrix w} {a : BinaryPair w} {i j k r c : Nat}

/-! ## Rows -/

theorem BinaryMatrix.row_set (m : BinaryMatrix w) (i : Nat) (x : BitVec w) (hr : r < w) :
    BinaryMatrix.row (m.setIfInBounds i x) r = if r = i then x else m.row r := by
  unfold BinaryMatrix.row
  by_cases hri : r = i
  · subst hri
    simp [hr]
  · simp [hri, Ne.symm hri]

theorem BinaryMatrix.row_ofFn (f : Fin w → BitVec w) (hr : r < w) : BinaryMatrix.row (Vector.ofFn f) r = f ⟨r, hr⟩ := by
  simp [BinaryMatrix.row, hr]

theorem row_swapWords (m : BinaryMatrix w) (hr : r < w) :
    (swapWords i j m).row r = if r = j then m.row i else if r = i then m.row j else m.row r := by
  rw [swapWords, BinaryMatrix.row_set _ _ _ hr, BinaryMatrix.row_set _ _ _ hr]

theorem row_addWord (m : BinaryMatrix w) (hr : r < w) :
    (addWord j i m).row r = if r = j then m.row j ^^^ m.row i else m.row r := BinaryMatrix.row_set _ _ _ hr

theorem getLsbD_power (hj : j < w) : (1#w <<< i).getLsbD j = decide (j = i) := by
  rw [BitVec.getLsbD_shiftLeft, BitVec.getLsbD_one]
  rcases Nat.lt_trichotomy j i with hlt | rfl | hgt
  · simp [hlt, hlt.ne]
  · simp [hj, Nat.zero_lt_of_lt hj]
  · simp [hgt.ne', Nat.sub_ne_zero_of_lt hgt]

/-- The sum of the rows that `v` picks. -/
def combine (v : BitVec w) (mat : BinaryMatrix w) : BitVec w := xorSum w fun i => if v.getLsbD i then mat.row i else 0

theorem combine_xor (v v' : BitVec w) (mat : BinaryMatrix w) :
    combine (v ^^^ v') mat = combine v mat ^^^ combine v' mat := by
  unfold combine
  rw [xorSum_xor]
  refine xorSum_congr fun i _ => ?_
  rw [BitVec.getLsbD_xor]
  cases v.getLsbD i <;> cases v'.getLsbD i <;> simp

theorem combine_power (hi : i < w) (mat : BinaryMatrix w) : combine (1#w <<< i) mat = mat.row i := by
  have hsum : ∀ n ≤ w, (xorSum n fun j => if (1#w <<< i).getLsbD j then mat.row j else 0)
      = if i < n then mat.row i else 0 := by
    intro n hn
    induction n with
    | zero => rfl
    | succ n ih =>
        rw [xorSum_succ, ih (by omega), getLsbD_power hn]
        rcases Nat.lt_trichotomy n i with hlt | rfl | hgt
        · simp [hlt.ne, Nat.not_lt.mpr hlt.le, Nat.not_lt.mpr (Nat.succ_le_of_lt hlt)]
        · simp
        · simp [hgt.ne', hgt, Nat.lt_succ_of_lt hgt]
  rw [combine, hsum w (Nat.le_refl w), if_pos hi]

/-! ## Regular matrices -/

/-- The bits as field elements. -/
def bits (mat : BinaryMatrix w) : Rows (ZMod 2) := fun r c => if (mat.row r).getLsbD c then 1 else 0

/-- When the rows add up to every word, only zero is orthogonal to all of them. -/
theorem regular_of_surjective (h : ∀ b, ∃ v, combine v mat = b) : Regular w (bits mat) := by
  intro x hx c hc
  have hsum : ∀ (v : BitVec w) (n : Nat), n ≤ w →
      dot w (fun c => if (xorSum n fun i => if v.getLsbD i then mat.row i else 0).getLsbD c then 1 else 0) x = 0 := by
    intro v n hn
    induction n with
    | zero => simp [xorSum, dot]
    | succ n ih =>
        have hrow : dot w (fun c => if (if v.getLsbD n then mat.row n else 0).getLsbD c then 1 else 0) x = 0 := by
          cases v.getLsbD n with
          | false => simp [dot]
          | true => exact hx n hn
        have hadd := dot_add (n := w)
          (fun c => if (xorSum n fun i => if v.getLsbD i then mat.row i else 0).getLsbD c then 1 else 0)
          (fun c => if (if v.getLsbD n then mat.row n else 0).getLsbD c then 1 else 0) x 1
        rw [ih (by omega), hrow, mul_zero, add_zero] at hadd
        refine (dot_congr fun c _ => ?_).trans hadd
        rw [xorSum_succ, BitVec.getLsbD_xor]
        generalize (xorSum n fun i => if v.getLsbD i then mat.row i else 0).getLsbD c = b
        generalize (if v.getLsbD n then mat.row n else 0).getLsbD c = b'
        revert b b'
        decide
  obtain ⟨v, hv⟩ := h (1#w <<< c)
  have hunit := hsum v w (Nat.le_refl w)
  rw [← combine, hv, dot_unit hc] at hunit
  · exact hunit
  · intro i hi
    rw [getLsbD_power hi]
    by_cases hic : i = c <;> simp [hic]

theorem Regular.swapWords (h : Regular w (bits mat)) (hi : i < w) (hj : j < w) :
    Regular w (bits (swapWords i j mat)) := by
  intro x hx
  refine h.swap hj hi x fun r hr => ?_
  have hrow : bits (Tables.swapWords i j mat) r
      = if r = j then bits mat i else if r = i then bits mat j else bits mat r := by
    funext c
    unfold bits
    rw [row_swapWords _ hr]
    by_cases hrj : r = j
    · rw [if_pos hrj, if_pos hrj]
    · rw [if_neg hrj, if_neg hrj]
      by_cases hri : r = i
      · rw [if_pos hri, if_pos hri]
      · rw [if_neg hri, if_neg hri]
  exact (congrArg (fun row => dot w row x) hrow).symm.trans (hx r hr)

theorem Regular.addWord (h : Regular w (bits mat)) (hi : i < w) (hij : i ≠ j) : Regular w (bits (addWord j i mat)) := by
  refine h.add hi hij 1 fun r hr c _ => ?_
  unfold bits
  rw [row_addWord _ hr]
  by_cases hrj : r = j
  · subst hrj
    rw [if_pos rfl, if_pos rfl, BitVec.getLsbD_xor]
    cases (mat.row r).getLsbD c <;> cases (mat.row i).getLsbD c <;> rfl
  · rw [if_neg hrj, if_neg hrj]

/-! ## The first pass -/

/-- What the first `i` columns of the first pass leave. -/
structure Forward (mat : BinaryMatrix w) (i : Nat) (a : BinaryPair w) : Prop where
  product : ∀ r < w, combine (a.inv.row r) mat = a.mat.row r
  diagonal : ∀ c < i, (a.mat.row c).getLsbD c = true
  upper : ∀ c < i, ∀ r < w, c < r → (a.mat.row r).getLsbD c = false

theorem Forward.start (mat : BinaryMatrix w) : Forward mat 0 ⟨mat, Vector.ofFn fun i => 1#w <<< i.val⟩ where
  product r hr := by
    dsimp only
    rw [BinaryMatrix.row_ofFn _ hr, combine_power hr]
  diagonal c hc := absurd hc (Nat.not_lt_zero c)
  upper c hc := absurd hc (Nat.not_lt_zero c)

theorem Forward.swapWords (h : Forward mat i a) (hij : i < j) (hj : j < w) :
    Forward mat i (a.both (swapWords i j)) where
  product r hr := by
    dsimp only [BinaryPair.both]
    rw [row_swapWords _ hr, row_swapWords _ hr]
    split_ifs
    · exact h.product i (by omega)
    · exact h.product j hj
    · exact h.product r hr
  diagonal c hc := by
    dsimp only [BinaryPair.both]
    rw [row_swapWords _ (by omega), if_neg (by omega), if_neg (by omega)]
    exact h.diagonal c hc
  upper c hc r hr hcr := by
    dsimp only [BinaryPair.both]
    rw [row_swapWords _ hr]
    split_ifs
    · exact h.upper c hc i (by omega) hc
    · exact h.upper c hc j hj (by omega)
    · exact h.upper c hc r hr hcr

/-- A pivot that is found is a one on the diagonal. -/
theorem Forward.pivot (h : Forward mat i a) {a' : BinaryPair w} (hpivot : binaryPivot w i a = some a') :
    Forward mat i a' ∧ (a'.mat.row i).getLsbD i = true ∧ (Regular w (bits a.mat) → Regular w (bits a'.mat)) := by
  unfold binaryPivot at hpivot
  by_cases hone : (a.mat.row i).getLsbD i = true
  · rw [if_pos hone] at hpivot
    cases hpivot
    exact ⟨h, hone, id⟩
  · rw [if_neg hone, Option.map_eq_some_iff] at hpivot
    obtain ⟨j, hfind, rfl⟩ := hpivot
    obtain ⟨hij, hj⟩ := List.mem_range'_1.mp (List.mem_of_find?_eq_some hfind)
    have hi : i < w := by omega
    refine ⟨h.swapWords (by omega) (by omega), ?_, fun hregular => Regular.swapWords hregular hi (by omega)⟩
    dsimp only [BinaryPair.both]
    rw [row_swapWords _ hi, if_neg (by omega), if_pos rfl]
    simpa using List.find?_some hfind

/-- A regular matrix has one. -/
theorem Forward.exists_pivot (h : Forward mat i a) (hregular : Regular w (bits a.mat)) (hi : i < w) :
    (binaryPivot w i a).isSome := by
  unfold binaryPivot
  by_cases hone : (a.mat.row i).getLsbD i = true
  · rw [if_pos hone]
    rfl
  · rw [if_neg hone, Option.isSome_map, List.find?_isSome]
    obtain ⟨j, hij, hj, hne⟩ := hregular.exists_pivot hi fun c hc r hr hcr => by
      rw [bits, h.upper c hc r hr hcr, if_neg Bool.false_ne_true]
    have hbit : (a.mat.row j).getLsbD i = true := by
      by_contra hzero
      exact hne (if_neg hzero)
    have hji : j ≠ i := fun heq => hone (heq ▸ hbit)
    exact ⟨j, List.mem_range'_1.mpr ⟨by omega, by omega⟩, hbit⟩

/-- The rows after `i` up to `i + k` have been cleared in column `i`. -/
theorem Forward.addBelow (h : Forward mat i a) (hone : (a.mat.row i).getLsbD i = true) : ∀ k, i + 1 + k ≤ w →
    let a' := (List.range' (i + 1) k).foldl (addBelow i) a
    Forward mat i a' ∧ (a'.mat.row i).getLsbD i = true ∧ (∀ r, i < r → r < i + 1 + k → (a'.mat.row r).getLsbD i = false) ∧
      (Regular w (bits a.mat) → Regular w (bits a'.mat)) := by
  intro k hk
  induction k with
  | zero => exact ⟨h, hone, fun r hr hlt => by omega, id⟩
  | succ k ih =>
      obtain ⟨hforward, hdiagonal, hcleared, hregular⟩ := ih (by omega)
      rw [List.range'_1_concat, List.foldl_append, List.foldl_cons, List.foldl_nil]
      generalize (List.range' (i + 1) k).foldl (Tables.addBelow i) a = b at *
      dsimp only [Tables.addBelow]
      by_cases hbit : (b.mat.row (i + 1 + k)).getLsbD i = true
      · rw [if_pos hbit]
        have hrow : ∀ (m : BinaryMatrix w) {r}, r < w → (addWord (i + 1 + k) i m).row r
            = if r = i + 1 + k then m.row (i + 1 + k) ^^^ m.row i else m.row r := fun m r hr => row_addWord m hr
        refine ⟨⟨fun r hr => ?_, fun c hc => ?_, fun c hc r hr hcr => ?_⟩, ?_, fun r hr hlt => ?_, fun hstart =>
          Regular.addWord (hregular hstart) (by omega) (by omega)⟩
        · dsimp only [BinaryPair.both]
          rw [hrow _ hr, hrow _ hr]
          split_ifs
          · rw [combine_xor, hforward.product _ (by omega), hforward.product _ (by omega)]
          · exact hforward.product r hr
        · dsimp only [BinaryPair.both]
          rw [hrow _ (by omega), if_neg (by omega)]
          exact hforward.diagonal c hc
        · dsimp only [BinaryPair.both]
          rw [hrow _ hr]
          split_ifs
          · rw [BitVec.getLsbD_xor, hforward.upper c hc _ (by omega) (by omega), hforward.upper c hc i (by omega) hc]
            rfl
          · exact hforward.upper c hc r hr hcr
        · dsimp only [BinaryPair.both]
          rw [hrow _ (by omega), if_neg (by omega)]
          exact hdiagonal
        · dsimp only [BinaryPair.both]
          rw [hrow _ (by omega)]
          split_ifs with hlast
          · rw [BitVec.getLsbD_xor, hbit, hdiagonal]
            rfl
          · exact hcleared r hr (by omega)
      · rw [if_neg hbit]
        refine ⟨hforward, hdiagonal, fun r hr hlt => ?_, hregular⟩
        by_cases hlast : r = i + 1 + k
        · rw [hlast]
          exact Bool.not_eq_true _ ▸ hbit
        · exact hcleared r hr (by omega)

theorem Forward.column (h : Forward mat i a) (hi : i < w) {a' : BinaryPair w}
    (hcolumn : binaryColumn w a i = some a') :
    Forward mat (i + 1) a' ∧ (Regular w (bits a.mat) → Regular w (bits a'.mat)) := by
  obtain ⟨p, hpivot, rfl⟩ := Option.map_eq_some_iff.mp hcolumn
  obtain ⟨hforward, hone, hregular⟩ := h.pivot hpivot
  obtain ⟨hforward, hone, hcleared, hregular'⟩ := hforward.addBelow hone (w - (i + 1)) (by omega)
  refine ⟨⟨hforward.product, fun c hc => ?_, fun c hc r hr hcr => ?_⟩, fun hstart => hregular' (hregular hstart)⟩
  · rcases Nat.lt_succ_iff_lt_or_eq.mp hc with hlt | rfl
    · exact hforward.diagonal c hlt
    · exact hone
  · rcases Nat.lt_succ_iff_lt_or_eq.mp hc with hlt | rfl
    · exact hforward.upper c hlt r hr hcr
    · exact hcleared r hcr (by omega)

theorem Forward.columns (mat : BinaryMatrix w) : ∀ k ≤ w, ∀ a,
    (List.range k).foldlM (binaryColumn w) ⟨mat, Vector.ofFn fun i => 1#w <<< i.val⟩ = some a →
      Forward mat k a ∧ (Regular w (bits mat) → Regular w (bits a.mat)) := by
  intro k hk
  induction k with
  | zero =>
      rintro a hrun
      cases hrun
      exact ⟨Forward.start mat, id⟩
  | succ k ih =>
      intro a hrun
      rw [List.range_succ, List.foldlM_append] at hrun
      obtain ⟨a', hrun, hstep⟩ := Option.bind_eq_some_iff.mp hrun
      obtain ⟨hforward, hregular⟩ := ih (by omega) a' hrun
      have hstep : binaryColumn w a' k = some a := by simpa using hstep
      obtain ⟨hforward, hregular'⟩ := hforward.column (by omega) hstep
      exact ⟨hforward, fun hstart => hregular' (hregular hstart)⟩

theorem columns_isSome (hregular : Regular w (bits mat)) : ∀ k ≤ w,
    ((List.range k).foldlM (binaryColumn w) ⟨mat, Vector.ofFn fun i => 1#w <<< i.val⟩).isSome := by
  intro k hk
  induction k with
  | zero => rfl
  | succ k ih =>
      obtain ⟨a, hrun⟩ := Option.isSome_iff_exists.mp (ih (by omega))
      obtain ⟨hforward, hkept⟩ := Forward.columns mat k (by omega) a hrun
      have hpivot := hforward.exists_pivot (hkept hregular) hk
      rw [List.range_succ, List.foldlM_append, hrun]
      simpa [binaryColumn] using hpivot

/-! ## The second pass -/

/-- The rows of `inv` stand for those of `mat` with the columns from `k` on cleared above the diagonal. -/
def Back (start mat : BinaryMatrix w) (k : Nat) (inv : BinaryMatrix w) : Prop := ∀ r < w, ∀ c < w,
  (combine (inv.row r) start).getLsbD c = if k ≤ c ∧ r < c then false else (mat.row r).getLsbD c

/-- The rows before `i` with a one in column `i` have got row `i` added. -/
theorem row_binaryBack (mat inv : BinaryMatrix w) (hi : i < w) : ∀ n ≤ i, ∀ r < w,
    BinaryMatrix.row ((List.range n).foldl (fun inv j => if (mat.row j).getLsbD i then addWord j i inv else inv) inv) r
      = if r < n ∧ (mat.row r).getLsbD i = true then inv.row r ^^^ inv.row i else inv.row r := by
  intro n hn
  induction n with
  | zero => exact fun r _ => by simp
  | succ n ih =>
      intro r hr
      have hrow := ih (by omega)
      rw [List.range_succ, List.foldl_append, List.foldl_cons, List.foldl_nil]
      by_cases hrn : r = n
      · subst hrn
        by_cases hbit : (mat.row r).getLsbD i = true
        · rw [if_pos hbit, row_addWord _ hr, if_pos rfl, hrow r hr, hrow i hi, if_neg (by omega), if_neg (by omega),
            if_pos ⟨Nat.lt_succ_self r, hbit⟩]
        · rw [if_neg hbit, hrow r hr, if_neg (by omega), if_neg fun hadd => hbit hadd.2]
      · have hiff : r < n + 1 ∧ (mat.row r).getLsbD i = true ↔ r < n ∧ (mat.row r).getLsbD i = true :=
          and_congr_left fun _ => by omega
        rw [if_congr hiff rfl rfl, ← hrow r hr]
        by_cases hbit : (mat.row n).getLsbD i = true
        · rw [if_pos hbit, row_addWord _ hr, if_neg hrn]
        · rw [if_neg hbit]

theorem Back.row {start : BinaryMatrix w} (h : Forward start w a) (hi : i < w)
    (hinv : Back start a.mat (i + 1) inv) : Back start a.mat i (binaryBack a.mat inv i) := by
  -- row `i` stands for the power of two that clears column `i`
  have hpower : combine (inv.row i) start = 1#w <<< i := by
    refine BitVec.eq_of_getLsbD_eq fun c hc => ?_
    rw [hinv i hi c hc, getLsbD_power hc]
    rcases Nat.lt_trichotomy c i with hlt | rfl | hgt
    · rw [if_neg (by omega), h.upper c hc i hi hlt, decide_eq_false hlt.ne]
    · rw [if_neg (by omega), h.diagonal c hc, decide_eq_true rfl]
    · rw [if_pos (by omega), decide_eq_false hgt.ne']
  intro r hr c hc
  rw [binaryBack, row_binaryBack _ _ hi i (Nat.le_refl i) r hr]
  by_cases hadd : r < i ∧ (a.mat.row r).getLsbD i = true
  · rw [if_pos hadd, combine_xor, hpower, BitVec.getLsbD_xor, hinv r hr c hc, getLsbD_power hc]
    by_cases hci : c = i
    · subst hci
      rw [if_neg (by omega), hadd.2, if_pos (by omega), decide_eq_true rfl]
      rfl
    · rw [decide_eq_false hci, Bool.xor_false]
      exact if_congr (by omega) rfl rfl
  · rw [if_neg hadd, hinv r hr c hc]
    by_cases hci : c = i
    · subst hci
      by_cases hrc : r < c
      · rw [if_neg (by omega), if_pos (by omega)]
        simpa [hrc] using hadd
      · rw [if_neg (by omega), if_neg (by omega)]
    · exact if_congr (by omega) rfl rfl

theorem Back.rows {start : BinaryMatrix w} (h : Forward start w a) : ∀ k ≤ w, ∀ inv,
    Back start a.mat k inv → Back start a.mat 0 ((List.range k).reverse.foldl (binaryBack a.mat) inv) := by
  intro k hk
  induction k with
  | zero => exact fun inv hinv => hinv
  | succ k ih =>
      intro inv hinv
      rw [List.range_succ, List.reverse_append]
      exact ih (by omega) _ (hinv.row h hk)

/-! ## Both passes -/

/-- The rows of the result say how the rows of the matrix add up to the powers of two. -/
theorem combine_inverse (h : invertBinaryMatrix mat = some inv) (hr : r < w) : combine (inv.row r) mat = 1#w <<< r := by
  obtain ⟨a, hrun, rfl⟩ := Option.map_eq_some_iff.mp h
  obtain ⟨hforward, -⟩ := Forward.columns mat w (Nat.le_refl w) a hrun
  have hback : Back mat a.mat w a.inv := fun r hr c hc => by
    rw [hforward.product r hr, if_neg (by omega)]
  refine BitVec.eq_of_getLsbD_eq fun c hc => ?_
  rw [hback.rows hforward w (Nat.le_refl w) a.inv r hr c hc, getLsbD_power hc]
  rcases Nat.lt_trichotomy c r with hlt | rfl | hgt
  · rw [if_neg (by omega), hforward.upper c hc r hr hlt, decide_eq_false hlt.ne]
  · rw [if_neg (by omega), hforward.diagonal c hc, decide_eq_true rfl]
  · rw [if_pos (by omega), decide_eq_false hgt.ne']

/-- With independent rows there is an inverse. -/
theorem invertBinaryMatrix_isSome (h : ∀ v, combine v mat = 0 → v = 0) : (invertBinaryMatrix mat).isSome := by
  have hinjective : Function.Injective fun v => combine v mat := by
    intro v v' heq
    have hzero : combine (v ^^^ v') mat = 0 := by exact (combine_xor v v' mat).trans ((congrArg (· ^^^ combine v' mat) heq).trans BitVec.xor_self)
    exact BitVec.xor_eq_zero_iff.mp (h _ hzero)
  have hfinite : Finite (BitVec w) := Finite.of_injective BitVec.toFin fun a b hab => BitVec.toFin_inj.mp hab
  have hregular := regular_of_surjective (Finite.surjective_of_injective hinjective)
  rw [invertBinaryMatrix, Option.isSome_map]
  exact columns_isSome hregular w (Nat.le_refl w)

end Sddr.Erasure.Tables
