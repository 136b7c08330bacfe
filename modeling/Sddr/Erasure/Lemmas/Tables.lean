import Sddr.Erasure.Lemmas.BinaryInvert
import Sddr.Erasure.Lemmas.Logs

/-!
# The tables answer like shift multiplication

Every table that is there holds the products and quotients of the field, whatever was called before.
-/

namespace Sddr.Erasure.Tables
open Sddr.Lib

variable {w : Nat}

/-! ## Tables of products and quotients -/

structure MultTables.Valid (t : MultTables w) : Prop where
  mult : ∀ x y : BitVec w, t.mult[x.toNat <<< w ||| y.toNat]? = some (shiftMultiply x y)
  div : ∀ x y : BitVec w, t.div[x.toNat <<< w ||| y.toNat]? = some (plainQuotient x y)

theorem index_eq (x y : BitVec w) : x.toNat <<< w ||| y.toNat = x.toNat * 2 ^ w + y.toNat := by
  rw [← Nat.shiftLeft_add_eq_or_of_lt y.isLt, Nat.shiftLeft_eq]

theorem divide_zero_left (b : BitVec w) : galoisShift.divide w 0 b = 0 := zero_shiftMultiply _

theorem multEntry_eq {t : LogTables w} (h : t.Valid) (hw : Primitive w) (x y : BitVec w) :
    multEntry t x.toNat y.toNat = some (shiftMultiply x y, plainQuotient x y) := by
  unfold multEntry plainQuotient
  have hzero : ∀ z : BitVec w, z.toNat = 0 ↔ z = 0 := fun z => BitVec.toNat_inj (x := z) (y := 0)
  by_cases hy : y = 0
  · rw [if_pos ((hzero y).mpr hy), if_pos hy, hy, shiftMultiply_zero]
  · rw [if_neg (fun heq => hy ((hzero y).mp heq)), if_neg hy]
    by_cases hx : x = 0
    · rw [if_pos ((hzero x).mpr hx), hx, zero_shiftMultiply, divide_zero_left]
    · obtain ⟨logx, logy, hlogx, hlogy, hproduct, hquotient⟩ := h.lookup hw hx hy
      rw [if_neg (fun heq => hx ((hzero x).mp heq)), hlogx, hlogy]
      simp [hproduct, hquotient]

theorem newMultTables_valid {t : LogTables w} (h : t.Valid) (hw : Primitive w) :
    ∃ tables, newMultTables t = some tables ∧ tables.Valid := by
  let word : Nat → BitVec w := BitVec.ofNat w
  let cells := (List.range (2 ^ w)).flatMap fun x => (List.range (2 ^ w)).map fun y => (x, y)
  have hword : ∀ x : BitVec w, word x.toNat = x := fun x => by
    dsimp only [word]
    rw [BitVec.ofNat_toNat, BitVec.setWidth_eq]
  have hcell : ∀ x y : BitVec w, cells[x.toNat <<< w ||| y.toNat]? = some (x.toNat, y.toNat) := fun x y => by
    rw [index_eq]
    exact getElem?_grid (fun x y => (x, y)) x.isLt y.isLt
  have hentries : cells.mapM (fun p => multEntry t p.1 p.2)
      = some (cells.map fun p => (shiftMultiply (word p.1) (word p.2), plainQuotient (word p.1) (word p.2))) := by
    refine mapM_eq_some fun p hp => ?_
    simp only [cells, List.mem_flatMap, List.mem_map, List.mem_range] at hp
    obtain ⟨x, hx, y, hy, rfl⟩ := hp
    have hentry := multEntry_eq h hw (word x) (word y)
    rwa [BitVec.toNat_ofNat, Nat.mod_eq_of_lt hx, BitVec.toNat_ofNat, Nat.mod_eq_of_lt hy] at hentry
  refine ⟨_, by rw [newMultTables, hentries]; rfl, fun x y => ?_, fun x y => ?_⟩
  · simp only [List.getElem?_toArray, List.getElem?_map, hcell, Option.map_some, hword]
  · simp only [List.getElem?_toArray, List.getElem?_map, hcell, Option.map_some, hword]

/-! ## Products of bytes -/

theorem timesTwo_iterate_small {y : BitVec w} {m : Nat} (hy : y.toNat < 2 ^ m) : ∀ k, m + k ≤ w →
    timesTwo^[k] y = y <<< k := by
  intro k hk
  induction k with
  | zero => exact (BitVec.shiftLeft_zero _).symm
  | succ k ih =>
      have hmsb : (y <<< k).msb = false := by
        rw [BitVec.msb_eq_getLsbD_last, BitVec.getLsbD_shiftLeft]
        have hbit : y.getLsbD (w - 1 - k) = false :=
          Nat.testBit_lt_two_pow (hy.trans_le (Nat.pow_le_pow_right (by decide) (by omega)))
        simp [hbit]
      rw [Function.iterate_succ_apply', ih (by omega), timesTwo, hmsb, if_neg Bool.false_ne_true, ← BitVec.shiftLeft_add]

/-- Shifting the factors shifts the product, which may then have to be reduced. -/
theorem shiftMultiply_shifted {x y : BitVec w} {m i j : Nat} (hx : x.toNat < 2 ^ m) (hy : y.toNat < 2 ^ m)
    (hi : m + i ≤ w) (hj : m + j ≤ w) : shiftMultiply (x <<< i) (y <<< j) = timesTwo^[i + j] (shiftMultiply x y) := by
  rw [← timesTwo_iterate_small hx i hi, ← timesTwo_iterate_small hy j hj, shiftMultiply_timesTwo, shiftMultiply_comm,
    shiftMultiply_timesTwo, ← Function.iterate_add_apply, shiftMultiply_comm, Nat.add_comm]

theorem newSplitW8_getElem? {t : Nat} (ht : t < 7) :
    newSplitW8[t]? = some (if t < 4 then splitTable 0 t else splitTable 3 (t - 3)) := by
  have hpairs : splitPairs = [(0, 0), (0, 1), (0, 2), (0, 3), (3, 1), (3, 2), (3, 3)] := by decide
  simp only [newSplitW8, hpairs, List.foldl_cons, List.foldl_nil, Array.getElem?_setIfInBounds, Array.size_setIfInBounds,
    Array.size_replicate]
  interval_cases t <;> simp

theorem splitTable_getElem? {i j p1 p2 : Nat} (hi : i ≤ 3) (hj : j ≤ 3) (hp1 : p1 < 256) (hp2 : p2 < 256) :
    (splitTable i j)[p1 <<< 8 ||| p2]? =
      some (timesTwo^[8 * (i + j)] (shiftMultiply (BitVec.ofNat 32 p1) (BitVec.ofNat 32 p2))) := by
  have hbyte : ∀ p < 256, (BitVec.ofNat 32 p).toNat < 2 ^ 8 := fun p hp => by
    rw [BitVec.toNat_ofNat]
    omega
  have hindex : p1 <<< 8 ||| p2 = p1 * 256 + p2 := by
    rw [← Nat.shiftLeft_add_eq_or_of_lt (show p2 < 2 ^ 8 from hp2), Nat.shiftLeft_eq]
  rw [splitTable, List.getElem?_toArray, hindex, getElem?_grid (fun p1 p2 =>
    shiftMultiply (BitVec.ofNat 32 p1 <<< (i * 8)) (BitVec.ofNat 32 p2 <<< (j * 8))) hp1 hp2,
    shiftMultiply_shifted (hbyte p1 hp1) (hbyte p2 hp2) (by omega) (by omega), Nat.mul_add, Nat.mul_comm i, Nat.mul_comm j]

/-- Byte `i` of a word. -/
def byteAt (x : BitVec 32) (i : Nat) : BitVec 32 := (x >>> (8 * i)) &&& 255

theorem byteAt_lt (x : BitVec 32) (i : Nat) : (byteAt x i).toNat < 256 := by
  rw [byteAt, BitVec.toNat_and]
  exact Nat.lt_of_le_of_lt Nat.and_le_right (by decide)

theorem xorSum_bytes (x : BitVec 32) : (xorSum 4 fun i => byteAt x i <<< (8 * i)) = x := by
  have hbyte : ∀ k < 32, (255 : BitVec 32).getLsbD k = decide (k < 8) := by decide
  refine BitVec.eq_of_getLsbD_eq fun k hk => ?_
  have hbits : ∀ n ≤ 4, (xorSum n fun i => byteAt x i <<< (8 * i)).getLsbD k = (decide (k < 8 * n) && x.getLsbD k) := by
    intro n hn
    induction n with
    | zero => simp [xorSum]
    | succ n ih =>
        rw [xorSum_succ, BitVec.getLsbD_xor, ih (by omega), byteAt, BitVec.getLsbD_shiftLeft, BitVec.getLsbD_and,
          BitVec.getLsbD_ushiftRight, hbyte _ (by omega)]
        rcases Nat.lt_or_ge k (8 * n) with hlt | hge
        · simp [hlt, show k < 8 * (n + 1) by omega]
        · have hindex : 8 * n + (k - 8 * n) = k := by omega
          have hiff : k - 8 * n < 8 ↔ k < 8 * (n + 1) := by omega
          simp [hk, Nat.not_lt.mpr hge, hindex, hiff, Bool.and_comm]
  rw [hbits 4 (Nat.le_refl 4), decide_eq_true (by omega), Bool.true_and]

theorem Linear.xorSum {f : BitVec w → BitVec w} (hf : Linear f) (n : Nat) (g : Nat → BitVec w) :
    f (xorSum n g) = xorSum n fun i => f (g i) := by
  induction n with
  | zero => exact hf.zero
  | succ n ih => rw [xorSum_succ, xorSum_succ, hf, ih]

theorem splitStep_eq (x y acc : BitVec 32) {i j : Nat} (hi : i < 4) (hj : j < 4) :
    splitStep newSplitW8 x y acc (i, j)
      = some (acc ^^^ timesTwo^[8 * (i + j)] (shiftMultiply (byteAt x i) (byteAt y j))) := by
  have hentry : ∃ table, newSplitW8[i + j]? = some table ∧
      table[(byteAt x i).toNat <<< 8 ||| (byteAt y j).toNat]?
        = some (timesTwo^[8 * (i + j)] (shiftMultiply (byteAt x i) (byteAt y j))) := by
    rw [newSplitW8_getElem? (by omega)]
    refine ⟨_, rfl, ?_⟩
    split_ifs with hlow
    · rw [splitTable_getElem? (by omega) (by omega) (byteAt_lt x i) (byteAt_lt y j), Nat.zero_add]
      simp only [BitVec.ofNat_toNat, BitVec.setWidth_eq]
    · rw [splitTable_getElem? (by omega) (by omega) (byteAt_lt x i) (byteAt_lt y j), show 3 + (i + j - 3) = i + j by omega]
      simp only [BitVec.ofNat_toNat, BitVec.setWidth_eq]
  obtain ⟨table, htable, hproduct⟩ := hentry
  unfold byteAt at hproduct
  simp only [splitStep, htable, Option.bind_eq_bind, Option.bind_some, hproduct]
  rfl

theorem splitW8Multiply_eq (x y : BitVec 32) : splitW8Multiply newSplitW8 x y = some (shiftMultiply x y) := by
  let product : Nat → Nat → BitVec 32 := fun i j => timesTwo^[8 * (i + j)] (shiftMultiply (byteAt x i) (byteAt y j))
  have hrow : ∀ i < 4, ∀ n ≤ 4, ∀ acc, ((List.range n).map fun j => (i, j)).foldlM (splitStep newSplitW8 x y) acc
      = some (acc ^^^ xorSum n (product i)) := by
    intro i hi n hn acc
    induction n with
    | zero => exact congrArg some BitVec.xor_zero.symm
    | succ n ih =>
        rw [List.range_succ, List.map_append, List.foldlM_append, ih (by omega), xorSum_succ, ← BitVec.xor_assoc]
        simp only [List.map_cons, List.map_nil, List.foldlM_cons, List.foldlM_nil, Option.bind_eq_bind, Option.bind_some,
          splitStep_eq x y _ hi hn]
        rfl
  have hrows : ∀ n ≤ 4, ((List.range n).flatMap fun i => (List.range 4).map fun j => (i, j)).foldlM
      (splitStep newSplitW8 x y) 0 = some (xorSum n fun i => xorSum 4 (product i)) := by
    intro n hn
    induction n with
    | zero => rfl
    | succ n ih =>
        rw [List.range_succ (n := n), List.flatMap_append, List.foldlM_append, ih (by omega), xorSum_succ]
        simpa using hrow n hn 4 (Nat.le_refl 4) _
  have hproduct : ∀ i < 4, ∀ j < 4, shiftMultiply (byteAt x i <<< (8 * i)) (byteAt y j <<< (8 * j)) = product i j :=
    fun i hi j hj => by
      rw [shiftMultiply_shifted (m := 8) (byteAt_lt x i) (byteAt_lt y j) (by omega) (by omega), ← Nat.mul_add]
  rw [splitW8Multiply, hrows 4 (Nat.le_refl 4)]
  conv_rhs => rw [← xorSum_bytes x, ← xorSum_bytes y]
  rw [Linear.xorSum (linear_shiftMultiply_left _)]
  refine congrArg some (xorSum_congr fun i hi => ?_)
  rw [Linear.xorSum (linear_shiftMultiply _)]
  exact xorSum_congr fun j hj => (hproduct i hi j hj).symm

end Sddr.Erasure.Tables
