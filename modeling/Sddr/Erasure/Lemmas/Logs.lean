import Mathlib.GroupTheory.OrderOfElement
import Mathlib.Tactic.NormNum.Prime
import Sddr.Erasure.Lemmas.Shift
import Sddr.Erasure.Tables
import Sddr.Lib.Loops

/-!
# The tables of logarithms

For 8 and 16 bits every word but zero is a power of two, so the loop that fills the tables ends without a collision,
and sums and differences of logarithms stay within the three copies of the inverse table.
-/

namespace Sddr.Erasure.Tables
open Sddr.Lib

variable {w : Nat}

/-! ## Powers of two -/

/-- The powers of two run through all words but zero. -/
structure Primitive (w : Nat) : Prop where
  width : FieldWidth w
  injective : ∀ i < nwm1 w, ∀ j < nwm1 w, timesTwo^[i] 1#w = timesTwo^[j] 1#w → i = j
  cycle : timesTwo^[nwm1 w] 1#w = 1#w

theorem power_multiply (h : FieldWidth w) (i j : Nat) :
    shiftMultiply (timesTwo^[i] 1#w) (timesTwo^[j] 1#w) = timesTwo^[i + j] 1#w := by
  have : NeZero w := ⟨by have := h.one_lt; omega⟩
  have hone : shiftMultiply (timesTwo^[i] 1#w) 1#w = timesTwo^[i] 1#w := by
    rw [shiftMultiply_comm]
    exact one_shiftMultiply _
  rw [shiftMultiply_timesTwo, hone, ← Function.iterate_add_apply, Nat.add_comm]

section
variable [Fact (galoisShift.IsField w)] [NeZero w]

theorem of_two_pow (h : FieldWidth w) (k : Nat) :
    (GF.of 2#w : GF galoisShift w) ^ k = GF.of (timesTwo^[k] 1#w) := by
  induction k with
  | zero => rfl
  | succ k ih =>
      rw [pow_succ', ih, Function.iterate_succ_apply', h.timesTwo_eq]
      exact (GF.of_multiply _ _).symm

theorem of_pow_two_pow (y : BitVec w) (k : Nat) : (GF.of y : GF galoisShift w) ^ 2 ^ k = GF.of (square^[k] y) := by
  induction k with
  | zero => exact pow_one _
  | succ k ih =>
      rw [pow_succ, pow_mul, ih, Function.iterate_succ_apply', sq]
      exact (GF.of_multiply _ _).symm

/-- The power `2 ^ k + 1`. -/
def fermat (k : Nat) (y : BitVec w) : BitVec w := shiftMultiply (square^[k] y) y

theorem of_pow_fermat (y : BitVec w) (k : Nat) :
    (GF.of y : GF galoisShift w) ^ (2 ^ k + 1) = GF.of (fermat k y) := by
  rw [pow_succ, of_pow_two_pow]
  exact (GF.of_multiply _ _).symm

theorem of_pow_fermats (ks : List Nat) (y : BitVec w) :
    (GF.of y : GF galoisShift w) ^ (ks.map fun k => 2 ^ k + 1).prod = GF.of (ks.foldl (fun y k => fermat k y) y) := by
  induction ks generalizing y with
  | nil => exact pow_one _
  | cons k ks ih => rw [List.map_cons, List.prod_cons, pow_mul, of_pow_fermat, ih, List.foldl_cons]

omit [Fact (galoisShift.IsField w)] [NeZero w] in
theorem of_two_ne_zero (h : FieldWidth w) : (GF.of 2#w : GF galoisShift w) ≠ 0 := by
  intro hzero
  have hzero : 2#w = 0#w := hzero
  have htwo := congrArg BitVec.toNat hzero
  have hlarge : 2 ^ 1 < 2 ^ w := Nat.pow_lt_pow_right (by decide) h.one_lt
  have hmod : 2 % 2 ^ w = 2 := Nat.mod_eq_of_lt hlarge
  rw [BitVec.toNat_ofNat, hmod, BitVec.toNat_ofNat, Nat.zero_mod] at htwo
  exact absurd htwo (by decide)

theorem two_pow_cycle (h : FieldWidth w) : (GF.of 2#w : GF galoisShift w) ^ nwm1 w = 1 := by
  have hall : (GF.of 2#w : GF galoisShift w) ^ (nwm1 w + 1) = GF.of 2#w := by
    rw [nwm1, Nat.sub_add_cancel Nat.one_le_two_pow, of_pow_two_pow, h.square_two]
  rw [pow_succ] at hall
  exact mul_right_cancel₀ (of_two_ne_zero h) (hall.trans (one_mul _).symm)

end

/-- The number of powers is a product of primes `2 ^ k + 1`, and leaving out one of them does not lead to one. -/
theorem primitive_of (h : FieldWidth w) (ks : List Nat) (hprod : (ks.map fun k => 2 ^ k + 1).prod = nwm1 w)
    (hprime : ∀ k ∈ ks, (2 ^ k + 1).Prime)
    (hne : ∀ k ∈ ks, (ks.erase k).foldl (fun y k => fermat k y) 2#w ≠ 1#w) : Primitive w := by
  have : Fact (galoisShift.IsField w) := ⟨h.isField⟩
  have : NeZero w := ⟨by have := h.one_lt; omega⟩
  have hpos : 0 < nwm1 w := Nat.sub_pos_of_lt (Nat.one_lt_two_pow (NeZero.ne w))
  have horder : orderOf (GF.of 2#w : GF galoisShift w) = nwm1 w := by
    refine orderOf_eq_of_pow_and_pow_div_prime hpos (two_pow_cycle h) fun p hp hdvd => ?_
    rw [← hprod, hp.prime.dvd_prod_iff] at hdvd
    obtain ⟨_, hmem, hdvd⟩ := hdvd
    obtain ⟨k, hk, rfl⟩ := List.mem_map.mp hmem
    obtain rfl := (Nat.prime_dvd_prime_iff_eq hp (hprime k hk)).mp hdvd
    have hquotient : nwm1 w / (2 ^ k + 1) = ((ks.erase k).map fun k => 2 ^ k + 1).prod := by
      rw [← hprod, ← List.prod_map_erase (fun k => 2 ^ k + 1) hk, Nat.mul_div_cancel_left _ hp.pos]
    rw [hquotient, of_pow_fermats]
    exact fun heq => hne k hk (GF.of_inj.mp heq)
  refine ⟨h, fun i hi j hj heq => ?_, ?_⟩
  · refine pow_injOn_Iio_orderOf (x := (GF.of 2#w : GF galoisShift w)) ?_ ?_ ?_
    · rwa [horder]
    · rwa [horder]
    · dsimp only
      rw [of_two_pow h, of_two_pow h, heq]
  · have hcycle := two_pow_cycle h
    rwa [of_two_pow h] at hcycle

theorem primitive_8 : Primitive 8 :=
  primitive_of fieldWidth_8 [1, 2, 4] rfl (by norm_num) (by decide +kernel)

theorem primitive_16 : Primitive 16 :=
  primitive_of fieldWidth_16 [1, 2, 4, 8] rfl (by norm_num) (by decide +kernel)

namespace Primitive

theorem nwm1_pos (h : Primitive w) : 0 < nwm1 w :=
  Nat.sub_pos_of_lt (Nat.one_lt_two_pow (Nat.ne_of_gt (Nat.lt_of_succ_lt h.width.one_lt)))

theorem power_ne_zero (h : Primitive w) (k : Nat) : timesTwo^[k] 1#w ≠ 0#w := by
  have : Fact (galoisShift.IsField w) := ⟨h.width.isField⟩
  have : NeZero w := ⟨by have := h.width.one_lt; omega⟩
  have hpow := pow_ne_zero k (of_two_ne_zero h.width)
  rw [of_two_pow h.width] at hpow
  exact hpow

/-- There are as many powers as words other than zero. -/
theorem exists_power (h : Primitive w) {x : BitVec w} (hx : x ≠ 0#w) : ∃ k < nwm1 w, timesTwo^[k] 1#w = x := by
  have hmaps : Set.MapsTo (fun k => (timesTwo^[k] 1#w).toNat) (Finset.range (nwm1 w)) (Finset.Ico 1 (2 ^ w)) := by
    intro k _
    have hne : (timesTwo^[k] 1#w).toNat ≠ 0 := fun heq => h.power_ne_zero k (BitVec.toNat_inj.mp heq)
    exact Finset.mem_coe.mpr (Finset.mem_Ico.mpr ⟨Nat.pos_of_ne_zero hne, BitVec.isLt _⟩)
  have hinj : Set.InjOn (fun k => (timesTwo^[k] 1#w).toNat) (Finset.range (nwm1 w)) := by
    intro i hi j hj heq
    exact h.injective i (Finset.mem_range.mp hi) j (Finset.mem_range.mp hj) (BitVec.toNat_inj.mp heq)
  have hsurj := Finset.surjOn_of_injOn_of_card_le _ hmaps hinj (by simp [nwm1])
  have hmem : x.toNat ∈ Finset.Ico 1 (2 ^ w) :=
    Finset.mem_Ico.mpr ⟨Nat.pos_of_ne_zero fun heq => hx (BitVec.toNat_inj.mp heq), x.isLt⟩
  obtain ⟨k, hk, heq⟩ := hsurj (Finset.mem_coe.mpr hmem)
  exact ⟨k, Finset.mem_range.mp hk, BitVec.toNat_inj.mp heq⟩

theorem power_add_cycle (h : Primitive w) (k : Nat) : timesTwo^[k + nwm1 w] 1#w = timesTwo^[k] 1#w := by
  rw [Function.iterate_add_apply, h.cycle]

end Primitive

/-! ## Filling the tables -/

/-- The tables after `j` steps of the first loop. -/
structure Filled (j : Nat) (s : LogTables w × BitVec w) : Prop where
  next : s.2 = timesTwo^[j] 1#w
  taken : ∀ k < j, s.1.log[(timesTwo^[k] 1#w).toNat]? = some k
  free : ∀ k, j ≤ k → k < nwm1 w → s.1.log[(timesTwo^[k] 1#w).toNat]? = some (nwm1 w)
  ilog : ∀ k < j, s.1.ilog[k]? = some (timesTwo^[k] 1#w)
  log_size : s.1.log.size = 2 ^ w
  ilog_size : s.1.ilog.size = 2 ^ w * 3

theorem Filled.step (h : Primitive w) {j : Nat} {s : LogTables w × BitVec w} (hs : Filled j s) (hj : j < nwm1 w) :
    ∃ s', logStep s j = some s' ∧ Filled (j + 1) s' := by
  have hfree : s.1.log[s.2.toNat]? = some (nwm1 w) := hs.next ▸ hs.free j (Nat.le_refl j) hj
  have hother : ∀ k < nwm1 w, k ≠ j → s.2.toNat ≠ (timesTwo^[k] 1#w).toNat := by
    intro k hk hkj heq
    rw [hs.next] at heq
    exact hkj (h.injective j hj k hk (BitVec.toNat_inj.mp heq)).symm
  have hlarge : nwm1 w < 2 ^ w := Nat.sub_lt (Nat.two_pow_pos w) Nat.one_pos
  refine ⟨_, if_pos hfree, ⟨?_, fun k hk => ?_, fun k hjk hk => ?_, fun k hk => ?_, ?_, ?_⟩⟩
  · rw [hs.next, Function.iterate_succ_apply']
  · dsimp only
    rw [Array.getElem?_setIfInBounds]
    rcases Nat.lt_succ_iff_lt_or_eq.mp hk with hlt | rfl
    · rw [if_neg (hother k (by omega) (by omega))]
      exact hs.taken k hlt
    · rw [hs.next, if_pos rfl, if_pos (hs.log_size ▸ BitVec.isLt _)]
  · dsimp only
    rw [Array.getElem?_setIfInBounds, if_neg (hother k hk (by omega))]
    exact hs.free k (by omega) hk
  · dsimp only
    rw [Array.getElem?_setIfInBounds]
    rcases Nat.lt_succ_iff_lt_or_eq.mp hk with hlt | rfl
    · rw [if_neg (by omega)]
      exact hs.ilog k hlt
    · rw [if_pos rfl, if_pos (by rw [hs.ilog_size]; omega), hs.next]
  · exact (Array.size_setIfInBounds).trans hs.log_size
  · exact (Array.size_setIfInBounds).trans hs.ilog_size

theorem Filled.steps (h : Primitive w) : ∀ j ≤ nwm1 w, ∃ s, (List.range j).foldlM logStep
    (⟨Array.replicate (2 ^ w) (nwm1 w), Array.replicate (2 ^ w * 3) 0⟩, 1#w) = some s ∧ Filled j s := by
  intro j hj
  induction j with
  | zero =>
      refine ⟨_, rfl, rfl, fun k hk => absurd hk (Nat.not_lt_zero k), fun k _ _ => ?_,
        fun k hk => absurd hk (Nat.not_lt_zero k), Array.size_replicate, Array.size_replicate⟩
      dsimp only
      rw [Array.getElem?_replicate, if_pos (BitVec.isLt _)]
  | succ j ih =>
      obtain ⟨s, hrun, hs⟩ := ih (by omega)
      obtain ⟨s', hstep, hs'⟩ := hs.step h hj
      refine ⟨s', ?_, hs'⟩
      rw [List.range_succ, List.foldlM_append, hrun]
      simpa using hstep

/-- The tables after the second loop: three rounds of powers. -/
structure LogTables.Valid (t : LogTables w) : Prop where
  log : ∀ k < nwm1 w, t.log[(timesTwo^[k] 1#w).toNat]? = some k
  ilog : ∀ k < nwm1 w * 3, t.ilog[k]? = some (timesTwo^[k] 1#w)

theorem repeatStep_foldl {s : LogTables w × BitVec w} (hs : Filled (nwm1 w) s) : ∀ j ≤ nwm1 w,
    let t := (List.range j).foldl repeatStep s.1
    t.log = s.1.log ∧ t.ilog.size = 2 ^ w * 3 ∧
      ∀ k < nwm1 w, ∀ c < 3, (c = 0 ∨ k < j) → t.ilog[k + nwm1 w * c]? = some (timesTwo^[k] 1#w) := by
  intro j hj
  induction j with
  | zero =>
      refine ⟨rfl, hs.ilog_size, fun k hk c _ hround => ?_⟩
      obtain rfl : c = 0 := hround.resolve_right (Nat.not_lt_zero k)
      exact hs.ilog k hk
  | succ j ih =>
      obtain ⟨hlog, hsize, hilog⟩ := ih (by omega)
      rw [List.range_succ, List.foldl_append, List.foldl_cons, List.foldl_nil]
      generalize (List.range j).foldl repeatStep s.1 = t at *
      have hlarge : nwm1 w < 2 ^ w := Nat.sub_lt (Nat.two_pow_pos w) Nat.one_pos
      have hsource : t.ilog.getD j 0 = timesTwo^[j] 1#w := by
        rw [Array.getD_eq_getD_getElem?, ← Nat.add_zero j, ← Nat.mul_zero (nwm1 w), hilog j hj 0 (by omega) (Or.inl rfl)]
        rfl
      refine ⟨hlog, ?_, fun k hk c hc hround => ?_⟩
      · simpa [repeatStep] using hsize
      · dsimp only [repeatStep]
        rw [hsource, Array.getElem?_setIfInBounds, Array.getElem?_setIfInBounds, Array.size_setIfInBounds, hsize]
        by_cases hkj : k = j
        · subst hkj
          rcases (by omega : c = 0 ∨ c = 1 ∨ c = 2) with rfl | rfl | rfl
          · rw [if_neg (by omega), if_neg (by omega)]
            exact hilog k hk 0 (by omega) (Or.inl rfl)
          · rw [if_neg (by omega), if_pos (by omega), if_pos (by omega)]
          · rw [if_pos rfl, if_pos (by omega)]
        · have hold := hilog k hk c hc (by omega)
          rcases (by omega : c = 0 ∨ c = 1 ∨ c = 2) with rfl | rfl | rfl
          · rwa [if_neg (by omega), if_neg (by omega)]
          · rwa [if_neg (by omega), if_neg (by omega)]
          · rwa [if_neg (by omega), if_neg (by omega)]

theorem newLogTables_valid (h : Primitive w) : ∃ t, newLogTables w = some t ∧ t.Valid := by
  obtain ⟨s, hrun, hs⟩ := Filled.steps h (nwm1 w) (Nat.le_refl _)
  obtain ⟨hlog, -, hilog⟩ := repeatStep_foldl hs (nwm1 w) (Nat.le_refl _)
  refine ⟨_, by rw [newLogTables]; exact congrArg _ hrun, fun k hk => ?_, fun k hk => ?_⟩
  · rw [hlog]
    exact hs.taken k hk
  · have hmod := Nat.mod_lt k h.nwm1_pos
    have hdiv : k / nwm1 w < 3 := Nat.div_lt_of_lt_mul hk
    have hcycle : ∀ c, timesTwo^[k % nwm1 w + nwm1 w * c] 1#w = timesTwo^[k % nwm1 w] 1#w := by
      intro c
      induction c with
      | zero => rfl
      | succ c ih => rw [Nat.mul_succ, ← Nat.add_assoc, h.power_add_cycle, ih]
    have hentry := hilog (k % nwm1 w) hmod (k / nwm1 w) hdiv (Or.inr hmod)
    rw [← hcycle (k / nwm1 w), Nat.mod_add_div] at hentry
    exact hentry

/-! ## Looking up -/

namespace LogTables.Valid

variable {t : LogTables w}

theorem ilogAt (h : t.Valid) (s : Int) (hlow : -nwm1 w ≤ s) (hhigh : s < nwm1 w * 2) :
    t.ilogAt s = some (timesTwo^[(nwm1 w + s).toNat] 1#w) := by
  rw [LogTables.ilogAt, if_pos (by omega)]
  exact h.ilog _ (by omega)

theorem log_eq (h : t.Valid) (hw : Primitive w) {x : BitVec w} (hx : x ≠ 0#w) :
    ∃ l < nwm1 w, t.log[x.toNat]? = some l ∧ timesTwo^[l] 1#w = x := by
  obtain ⟨l, hl, rfl⟩ := hw.exists_power hx
  exact ⟨l, hl, h.log l hl, rfl⟩

/-- A sum of logarithms is that of a product, a difference that of a quotient. -/
theorem lookup (h : t.Valid) (hw : Primitive w) {x y : BitVec w} (hx : x ≠ 0#w) (hy : y ≠ 0#w) :
    ∃ logx logy : Nat, t.log[x.toNat]? = some logx ∧ t.log[y.toNat]? = some logy ∧
      t.ilogAt (logx + logy) = some (shiftMultiply x y) ∧ t.ilogAt (logx - logy) = some (galoisShift.divide w x y) := by
  obtain ⟨logx, hlogx, hentryx, hpowx⟩ := h.log_eq hw hx
  obtain ⟨logy, hlogy, hentryy, hpowy⟩ := h.log_eq hw hy
  refine ⟨logx, logy, hentryx, hentryy, ?_, ?_⟩
  · have hindex : ((nwm1 w : Int) + (logx + logy)).toNat = logx + logy + nwm1 w := by omega
    rw [h.ilogAt _ (by omega) (by omega), hindex, hw.power_add_cycle, ← power_multiply hw.width, hpowx, hpowy]
  · rw [h.ilogAt _ (by omega) (by omega)]
    generalize hindex : ((nwm1 w : Int) + (logx - logy)).toNat = index
    have hquotient : shiftMultiply (timesTwo^[index] 1#w) y = x := by
      rw [← hpowy, power_multiply hw.width, show index + logy = logx + nwm1 w by omega, hw.power_add_cycle, hpowx]
    have hback := hw.width.isField.divide_multiply x y hy
    have : NeZero w := ⟨by have := hw.width.one_lt; omega⟩
    have hcancel : ∀ z : BitVec w, shiftMultiply (shiftMultiply z y) (Erasure.shiftInverse y) = z := fun z => by
      rw [shiftMultiply_assoc, shiftMultiply_comm y, hw.width.shiftInverse_multiply hy, shiftMultiply_comm]
      exact one_shiftMultiply z
    exact congrArg some ((hcancel _).symm.trans ((congrArg (shiftMultiply · (Erasure.shiftInverse y))
      (hquotient.trans hback.symm)).trans (hcancel _)))

end LogTables.Valid

end Sddr.Erasure.Tables
