import Sddr.Erasure.Lemmas.Tables

/-!
# Calls on tables in any state

A call builds the tables it needs and leaves those there are. Whatever tables there are when it begins, it gives the
plain answer.
-/

namespace Sddr.Erasure.Tables
open Sddr.Lib

variable {w : Nat} {s : Statics}

/-! ## Tables on demand -/

/-- All tables there are hold what they should. -/
structure Statics.Valid (s : Statics) : Prop where
  log : ∀ w t, Primitive w → s.logTables w = some t → t.Valid
  mult : ∀ w t, Primitive w → s.multTables w = some t → t.Valid
  split : ∀ t, s.splitW8 = some t → t = newSplitW8

theorem Statics.Valid.init : Statics.init.Valid :=
  ⟨fun _ _ _ h => (nomatch h), fun _ _ _ h => (nomatch h), fun _ h => (nomatch h)⟩

theorem createLogTables_spec (h : s.Valid) (hw : Primitive w) (hsmall : w ≤ 30) :
    ∃ s' t, createLogTables w s = some s' ∧ s'.Valid ∧ s'.logTables w = some t ∧ t.Valid := by
  unfold createLogTables
  rw [if_neg (by omega)]
  cases hold : s.logTables w with
  | some t => exact ⟨s, t, rfl, h, hold, h.log w t hw hold⟩
  | none =>
      obtain ⟨t, hnew, ht⟩ := newLogTables_valid hw
      rw [hnew]
      refine ⟨_, t, rfl, ⟨fun w' t' hw' hlookup => ?_, h.mult, h.split⟩, Function.update_self .., ht⟩
      by_cases hww : w' = w
      · subst hww
        simp only [Function.update_self] at hlookup
        cases hlookup
        exact ht
      · simp only [Function.update_of_ne hww] at hlookup
        exact h.log w' t' hw' hlookup

theorem createMultTables_spec (h : s.Valid) (hw : Primitive w) (hsmall : w < 14) :
    ∃ s' t, createMultTables w s = some s' ∧ s'.Valid ∧ s'.multTables w = some t ∧ t.Valid := by
  unfold createMultTables
  rw [if_neg (by omega)]
  cases hold : s.multTables w with
  | some t => exact ⟨s, t, rfl, h, hold, h.mult w t hw hold⟩
  | none =>
      obtain ⟨s', t, hlog, hs', hlookup, ht⟩ := createLogTables_spec h hw (by omega)
      obtain ⟨tables, hnew, htables⟩ := newMultTables_valid ht hw
      refine ⟨{ s' with multTables := Function.update s'.multTables w (some tables) }, tables, ?_,
        ⟨hs'.log, fun w' t' hw' hlookup' => ?_, hs'.split⟩, Function.update_self .., htables⟩
      · simp [hlog, hlookup, hnew]
      · by_cases hww : w' = w
        · subst hww
          simp only [Function.update_self] at hlookup'
          cases hlookup'
          exact htables
        · simp only [Function.update_of_ne hww] at hlookup'
          exact hs'.mult w' t' hw' hlookup'

theorem createSplitW8Tables_spec (h : s.Valid) :
    ∃ s' tables, createSplitW8Tables s = some s' ∧ s'.Valid ∧ s'.splitW8 = some tables ∧
      ∀ x y, splitW8Multiply tables x y = some (shiftMultiply x y) := by
  unfold createSplitW8Tables
  cases hold : s.splitW8 with
  | some tables =>
      obtain rfl := h.split tables hold
      exact ⟨s, _, rfl, h, hold, splitW8Multiply_eq⟩
  | none =>
      obtain ⟨s', t, hmult, hs', -, -⟩ := createMultTables_spec h primitive_8 (by decide)
      rw [hmult]
      refine ⟨_, _, rfl, ⟨hs'.log, hs'.mult, fun t ht => ?_⟩, rfl, splitW8Multiply_eq⟩
      cases ht
      rfl

/-! ## Single products and quotients -/

/-- The call ends with this answer, and the tables still hold what they should. -/
def Answers {α : Type} (f : Statics → Option (α × Statics)) (answer : α) (s : Statics) : Prop :=
  ∃ s', f s = some (answer, s') ∧ s'.Valid

theorem mem_widths (hw : w ∈ [8, 16, 32]) : w = 8 ∨ w = 16 ∨ w = 32 := by simpa using hw

theorem fieldWidth_of_mem (hw : w ∈ [8, 16, 32]) : FieldWidth w := by
  rcases mem_widths hw with rfl | rfl | rfl
  · exact fieldWidth_8
  · exact fieldWidth_16
  · exact fieldWidth_32

theorem singleMultiply_answers (h : s.Valid) (hw : w ∈ [8, 16, 32]) (x y : BitVec w) :
    Answers (singleMultiply x y) (shiftMultiply x y) s := by
  unfold Answers singleMultiply
  by_cases hzero : x = 0 ∨ y = 0
  · rw [if_pos hzero]
    refine ⟨s, ?_, h⟩
    rcases hzero with rfl | rfl
    · rw [zero_shiftMultiply]
    · rw [shiftMultiply_zero]
  · rw [if_neg hzero]
    obtain ⟨hx, hy⟩ := not_or.mp hzero
    rcases mem_widths hw with rfl | rfl | rfl
    · obtain ⟨s', t, hcreate, hs', htables, ht⟩ := createMultTables_spec h primitive_8 (by decide)
      exact ⟨s', by simp [multType, hcreate, htables, ht.mult x y], hs'⟩
    · obtain ⟨s', t, hcreate, hs', htables, ht⟩ := createLogTables_spec h primitive_16 (by decide)
      obtain ⟨logx, logy, hlogx, hlogy, hproduct, -⟩ := ht.lookup primitive_16 hx hy
      exact ⟨s', by simp [multType, hcreate, htables, hlogx, hlogy, hproduct], hs'⟩
    · obtain ⟨s', tables, hcreate, hs', htables, hproduct⟩ := createSplitW8Tables_spec h
      exact ⟨s', by simp [multType, hcreate, htables, hproduct], hs'⟩

/-- Elimination finds the inverse of every word but zero. -/
theorem shiftInverse_eq (hw : FieldWidth w) {y : BitVec w} (hy : y ≠ 0) :
    shiftInverse y = some (Erasure.shiftInverse y) := by
  have : NeZero w := ⟨by have := hw.one_lt; omega⟩
  have hcombine : ∀ v, combine v (Vector.ofFn fun i => timesTwo^[i.val] y) = shiftMultiply v y := fun v => by
    rw [combine, shiftMultiply_eq]
    exact xorSum_congr fun i hi => by rw [BinaryMatrix.row_ofFn _ hi]
  have hinverse := hw.shiftInverse_multiply hy
  have hcancel : ∀ v, shiftMultiply (shiftMultiply v y) (Erasure.shiftInverse y) = v := fun v => by
    rw [shiftMultiply_assoc, shiftMultiply_comm y, hinverse, shiftMultiply_comm]
    exact one_shiftMultiply v
  obtain ⟨inv, hinv⟩ := Option.isSome_iff_exists.mp (invertBinaryMatrix_isSome fun v hv => by
    rw [← hcancel v, ← hcombine, hv, zero_shiftMultiply])
  have hone := combine_inverse hinv (Nat.pos_of_neZero w)
  rw [hcombine, BitVec.shiftLeft_zero] at hone
  have hrow : inv.row 0 = Erasure.shiftInverse y := by
    rw [← hcancel (inv.row 0), hone]
    exact one_shiftMultiply _
  rw [shiftInverse, hinv, Option.map_some, hrow]

theorem plainQuotient_one (hw : FieldWidth w) {y : BitVec w} (hy : y ≠ 0) :
    plainQuotient 1 y = Erasure.shiftInverse y := by
  have : NeZero w := ⟨by have := hw.one_lt; omega⟩
  rw [plainQuotient, if_neg hy]
  exact one_shiftMultiply _

theorem singleDivide_answers (h : s.Valid) (hw : w ∈ [8, 16, 32]) (a b : BitVec w) :
    Answers (singleDivide a b) (plainQuotient a b) s := by
  unfold Answers singleDivide
  have hquotient : b ≠ 0 → plainQuotient a b = galoisShift.divide w a b := fun hb => if_neg hb
  have hminus : b = 0 → plainQuotient a b = -1 := fun hb => if_pos hb
  rcases mem_widths hw with rfl | rfl | rfl
  · obtain ⟨s', t, hcreate, hs', htables, ht⟩ := createMultTables_spec h primitive_8 (by decide)
    exact ⟨s', by simp [multType, hcreate, htables, ht.div a b], hs'⟩
  · rw [show multType 16 = .logs from rfl]
    dsimp only
    by_cases hb : b = 0
    · exact ⟨s, by rw [if_pos hb, hminus hb], h⟩
    · rw [if_neg hb, hquotient hb]
      by_cases ha : a = 0
      · exact ⟨s, by rw [if_pos ha, ha, divide_zero_left], h⟩
      · obtain ⟨s', t, hcreate, hs', htables, ht⟩ := createLogTables_spec h primitive_16 (by decide)
        obtain ⟨loga, logb, hloga, hlogb, -, hdivide⟩ := ht.lookup primitive_16 ha hb
        rw [if_neg ha]
        exact ⟨s', by simp [hcreate, htables, hloga, hlogb, hdivide], hs'⟩
  · rw [show multType 32 = .splitW8 from rfl]
    dsimp only
    by_cases hb : b = 0
    · exact ⟨s, by rw [if_pos hb, hminus hb], h⟩
    · rw [if_neg hb, hquotient hb]
      by_cases ha : a = 0
      · exact ⟨s, by rw [if_pos ha, ha, divide_zero_left], h⟩
      · rw [if_neg ha, shiftInverse_eq fieldWidth_32 hb, Option.bind_some]
        exact singleMultiply_answers h hw a (Erasure.shiftInverse b)

theorem inverse_answers (h : s.Valid) (hw : w ∈ [8, 16, 32]) (y : BitVec w) :
    Answers (inverse y) (plainQuotient 1 y) s := by
  unfold Answers inverse
  by_cases hy : y = 0
  · exact ⟨s, by rw [if_pos hy, plainQuotient, if_pos hy], h⟩
  · rw [if_neg hy]
    rcases mem_widths hw with rfl | rfl | rfl
    · exact singleDivide_answers h hw 1 y
    · exact singleDivide_answers h hw 1 y
    · rw [show multType 32 = .splitW8 from rfl, plainQuotient_one fieldWidth_32 hy]
      exact ⟨s, by rw [shiftInverse_eq fieldWidth_32 hy, Option.map_some], h⟩

/-! ## Regions -/

theorem xorLong_eq (done old l rest : List (BitVec w)) (hlength : old.length = l.length) :
    xorLong done.length l (done ++ (old ++ rest)) = some (done ++ (List.zipWith (· ^^^ ·) old l ++ rest)) := by
  have htake : (done ++ (old ++ rest)).take done.length = done := List.take_left
  have hold : ((done ++ (old ++ rest)).drop done.length).take l.length = old := by
    rw [List.drop_left, ← hlength, List.take_left]
  have hdrop : (done ++ (old ++ rest)).drop (done.length + l.length) = rest := by
    rw [← List.drop_drop, List.drop_left, ← hlength, List.drop_left]
  rw [xorLong, if_pos (by simp only [List.length_append]; omega), htake, hold, hdrop, List.append_assoc]

/-- The products of the words of one `long`. -/
theorem mapM_long {product : BitVec w → Option (BitVec w)} {p : BitVec w → BitVec w}
    (hproduct : ∀ x, product x = some (p x)) {sol i : Nat} {region : List (BitVec w)} (hi : i + sol ≤ region.length) :
    (List.range sol).mapM (fun j => region[i + j]?.bind product) = some (((region.drop i).take sol).map p) := by
  have hlength : ((region.drop i).take sol).length = sol := by
    rw [List.length_take, List.length_drop]
    omega
  have hrange := mapM_range (l := (region.drop i).take sol) (f := fun j => region[i + j]?.bind product)
    (g := fun _ x => p x) fun j x hx => by
      rw [List.getElem?_take, List.getElem?_drop] at hx
      split_ifs at hx
      rw [hx, Option.bind_some, hproduct]
  rw [hlength] at hrange
  rw [hrange]
  exact congrArg some (List.ext_getElem? fun j => by rw [List.getElem?_mapIdx, List.getElem?_map])

/-- Adding the products `long` by `long` is adding them word by word. -/
theorem addLongs_eq {product : BitVec w → Option (BitVec w)} {p : BitVec w → BitVec w}
    (hproduct : ∀ x, product x = some (p x)) {sol : Nat} (hsol : 0 < sol) {region r2 : List (BitVec w)}
    (hwhole : region.length % sol = 0) (hlength : r2.length = region.length) :
    addLongs sol product region r2 = some (List.zipWith (fun x z => z ^^^ p x) region r2) := by
  have hn : region.length = region.length / sol * sol :=
    (Nat.div_mul_cancel (Nat.dvd_of_mod_eq_zero hwhole)).symm
  have hrounds : (region.length + (sol - 1)) / sol = region.length / sol := by
    conv_lhs => rw [hn]
    rw [Nat.add_comm, Nat.add_mul_div_right _ _ hsol, Nat.div_eq_of_lt (by omega), Nat.zero_add]
  have hround : ∀ n ≤ region.length / sol, (List.range n).foldlM (fun r2 k => do
      let l ← (List.range sol).mapM fun j => region[k * sol + j]?.bind product
      xorLong (k * sol) l r2) r2
        = some (List.zipWith (fun x z => z ^^^ p x) (region.take (n * sol)) (r2.take (n * sol)) ++ r2.drop (n * sol)) := by
    intro n hle
    induction n with
    | zero => simp
    | succ n ih =>
        have hbound := Nat.mul_le_mul_right sol hle
        rw [← hn, Nat.succ_mul] at hbound
        rw [List.range_succ, List.foldlM_append, ih (by omega)]
        simp only [Option.bind_eq_bind, Option.bind_some, List.foldlM_cons, List.foldlM_nil, mapM_long hproduct hbound,
          Option.bind_some]
        generalize hsum : List.zipWith (fun x z => z ^^^ p x) (region.take (n * sol)) (r2.take (n * sol)) = done
        have hdone : done.length = n * sol := by
          rw [← hsum, List.length_zipWith, List.length_take, List.length_take]
          omega
        have hchunk : ((r2.drop (n * sol)).take sol).length = (((region.drop (n * sol)).take sol).map p).length := by
          simp only [List.length_take, List.length_drop, List.length_map, hlength]
        have hsplit : (r2.drop (n * sol)).take sol ++ r2.drop (n * sol + sol) = r2.drop (n * sol) := by
          rw [← List.drop_drop, List.take_append_drop]
        have hxor := xorLong_eq done _ _ (r2.drop (n * sol + sol)) hchunk
        rw [hdone, hsplit] at hxor
        have hlong : List.zipWith (· ^^^ ·) ((r2.drop (n * sol)).take sol) (((region.drop (n * sol)).take sol).map p)
            = List.zipWith (fun x z => z ^^^ p x) ((region.drop (n * sol)).take sol) ((r2.drop (n * sol)).take sol) := by
          rw [List.zipWith_map_right, List.zipWith_comm]
        rw [hxor, hlong, Nat.succ_mul, List.take_add, List.take_add, List.zipWith_append (by simp [hlength]), hsum,
          List.append_assoc]
        rfl
  rw [addLongs, hrounds, hround _ (Nat.le_refl _), ← hn, List.take_length, ← hlength, List.take_length, List.drop_length,
    List.append_nil]

section
variable {sol : Nat} {region : List (BitVec w)} {multby : BitVec w} {r2 : Option (List (BitVec w))} {add : Bool}

/-- The two loops over a region, for any way to look products up. -/
theorem region_eq (hr : WholeLongs sol region r2 add) (hsol : 0 < sol) {product : BitVec w → Option (BitVec w)}
    (hproduct : ∀ x, product x = some (shiftMultiply multby x)) :
    regionLoop sol product region r2 add = some (plainRegion region multby r2 add) := by
  unfold regionLoop
  obtain ⟨hwhole, hlength, hown⟩ := hr
  cases add with
  | false =>
      rw [Bool.not_false, Bool.or_true, if_pos rfl]
      exact mapM_eq_some fun x _ => hproduct x
  | true =>
      have hsome : r2.isNone = false := by
        cases r2 with
        | none => exact absurd (hown rfl) (by decide)
        | some _ => rfl
      rw [hsome, Bool.not_true, Bool.or_false, if_neg Bool.false_ne_true]
      exact addLongs_eq hproduct hsol hwhole hlength

theorem plainRegion_zero (hr : WholeLongs sol region r2 add) :
    plainRegion region 0 r2 add = if add then r2.getD region else List.replicate (r2.getD region).length 0 := by
  obtain ⟨-, hlength, -⟩ := hr
  unfold plainRegion
  cases add with
  | false =>
      simp only [Bool.false_eq_true, if_false, hlength]
      rw [List.eq_replicate_iff]
      refine ⟨List.length_map _, fun x hx => ?_⟩
      obtain ⟨y, -, rfl⟩ := List.mem_map.mp hx
      exact zero_shiftMultiply y
  | true =>
      simp only [if_true]
      refine List.ext_getElem (by rw [List.length_zipWith]; omega) fun i hi hi' => ?_
      rw [List.getElem_zipWith, zero_shiftMultiply]
      exact BitVec.xor_zero

end

theorem regionLoop_in_place {sol : Nat} {region : List (BitVec w)} {p : BitVec w → BitVec w} :
    regionLoop sol (fun x => some (p x)) region none true = some (region.map p) := mapM_eq_some fun _ _ => rfl

theorem w08_product {t : MultTables 8} (ht : t.Valid) (multby x : BitVec 8) :
    t.mult[multby.toNat * 2 ^ 8 + x.toNat]? = some (shiftMultiply multby x) := by
  rw [← index_eq]
  exact ht.mult multby x

theorem w16_product {t : LogTables 16} (ht : t.Valid) {multby : BitVec 16} (hzero : multby ≠ 0) {log1 : Nat}
    (hlog1 : t.log[multby.toNat]? = some log1) (x : BitVec 16) :
    (if x = 0 then some 0 else t.log[x.toNat]?.bind fun log2 => t.ilogAt (log2 + log1))
      = some (shiftMultiply multby x) := by
  by_cases hx : x = 0
  · rw [if_pos hx, hx, shiftMultiply_zero]
  · obtain ⟨log2, log1', hlog2, hlog1', hproduct, -⟩ := ht.lookup primitive_16 hx hzero
    rw [hlog1] at hlog1'
    cases hlog1'
    rw [if_neg hx, hlog2, Option.bind_some, hproduct, shiftMultiply_comm]

theorem w08RegionMultiply_answers (h : s.Valid) {region : List (BitVec 8)} {r2 : Option (List (BitVec 8))} {add : Bool}
    (hr : WholeLongs 8 region r2 add) (multby : BitVec 8) :
    Answers (w08RegionMultiply region multby r2 add) (plainRegion region multby r2 add) s := by
  obtain ⟨s', t, hcreate, hs', htables, ht⟩ := createMultTables_spec h primitive_8 (by decide)
  refine ⟨s', ?_, hs'⟩
  unfold w08RegionMultiply
  simp only [hcreate, htables, Option.bind_eq_bind, Option.bind_some,
    region_eq hr (by decide) (w08_product ht multby)]
  rfl

theorem w16RegionMultiply_answers (h : s.Valid) {region : List (BitVec 16)} {r2 : Option (List (BitVec 16))} {add : Bool}
    (hr : WholeLongs 4 region r2 add) (multby : BitVec 16) :
    Answers (w16RegionMultiply region multby r2 add) (plainRegion region multby r2 add) s := by
  unfold Answers w16RegionMultiply
  dsimp only
  by_cases hzero : multby = 0
  · refine ⟨s, ?_, h⟩
    rw [if_pos hzero, hzero, plainRegion_zero hr]
    have hwhole : (r2.getD region).length % 4 = 0 := hr.2.1 ▸ hr.1
    cases add with
    | false => rw [zeroLongs, if_pos hwhole]; rfl
    | true => rfl
  · obtain ⟨s', t, hcreate, hs', htables, ht⟩ := createLogTables_spec h primitive_16 (by decide)
    obtain ⟨log1, -, hlog1, -⟩ := ht.log_eq primitive_16 hzero
    refine ⟨s', ?_, hs'⟩
    rw [if_neg hzero]
    simp only [hcreate, htables, hlog1, Option.bind_eq_bind, Option.bind_some,
      region_eq hr (by decide) (w16_product ht hzero hlog1)]
    rfl

theorem w32RegionMultiply_answers (h : s.Valid) (region : List (BitVec 32)) (multby : BitVec 32)
    (r2 : Option (List (BitVec 32))) (add : Bool) :
    Answers (w32RegionMultiply region multby r2 add) (plainRegion region multby r2 add) s := by
  obtain ⟨s', tables, hcreate, hs', htables, hproduct⟩ := createSplitW8Tables_spec h
  refine ⟨s', ?_, hs'⟩
  unfold w32RegionMultiply plainRegion
  simp only [hcreate, htables, Option.bind_eq_bind, Option.bind_some]
  cases add with
  | false =>
      rw [Bool.not_false, if_pos rfl, if_neg Bool.false_ne_true, mapM_eq_some fun x _ => hproduct multby x]
      rfl
  | true =>
      rw [Bool.not_true, if_neg Bool.false_ne_true, if_pos rfl,
        mapM_eq_some (g := fun p : BitVec 32 × BitVec 32 => p.2 ^^^ shiftMultiply multby p.1) fun p _ => by
          rw [hproduct, Option.map_some], List.map_zip_eq_zipWith]
      rfl

/-- Adding in place is not the same in the three functions: the first overwrites the region, the second does so too but
leaves it alone for the factor zero, the third adds. -/
theorem in_place_add (h : s.Valid) (region8 : List (BitVec 8)) (multby8 : BitVec 8) (region16 : List (BitVec 16))
    (multby16 : BitVec 16) (region32 : List (BitVec 32)) (multby32 : BitVec 32) :
    Answers (w08RegionMultiply region8 multby8 none true) (region8.map (shiftMultiply multby8)) s ∧
    Answers (w16RegionMultiply region16 multby16 none true)
      (if multby16 = 0 then region16 else region16.map (shiftMultiply multby16)) s ∧
    Answers (w32RegionMultiply region32 multby32 none true) (region32.map fun x => x ^^^ shiftMultiply multby32 x) s := by
  refine ⟨?_, ?_, ?_⟩
  · obtain ⟨s', t, hcreate, hs', htables, ht⟩ := createMultTables_spec h primitive_8 (by decide)
    refine ⟨s', ?_, hs'⟩
    unfold w08RegionMultiply
    simp only [hcreate, htables, Option.bind_eq_bind, Option.bind_some, w08_product ht, regionLoop_in_place]
    rfl
  · unfold Answers w16RegionMultiply
    by_cases hzero : multby16 = 0
    · exact ⟨s, by rw [if_pos hzero, if_pos hzero]; rfl, h⟩
    · obtain ⟨s', t, hcreate, hs', htables, ht⟩ := createLogTables_spec h primitive_16 (by decide)
      obtain ⟨log1, -, hlog1, -⟩ := ht.log_eq primitive_16 hzero
      refine ⟨s', ?_, hs'⟩
      rw [if_neg hzero, if_neg hzero]
      simp only [hcreate, htables, hlog1, Option.bind_eq_bind, Option.bind_some, w16_product ht hzero hlog1,
        regionLoop_in_place]
      rfl
  · obtain ⟨s', hrun, hs'⟩ := w32RegionMultiply_answers h region32 multby32 none true
    refine ⟨s', hrun.trans ?_, hs'⟩
    rw [plainRegion, if_pos rfl, Option.getD_none, List.zipWith_self]

/-! ## Runs -/

theorem Call.run_plain (h : s.Valid) (c : Call) (hc : c.Allowed) : ∃ s', c.run s = some (c.plain, s') ∧ s'.Valid := by
  cases c with
  | singleMultiply w x y =>
      obtain ⟨s', hrun, hs'⟩ := singleMultiply_answers h hc x y
      exact ⟨s', by rw [Call.run, hrun]; rfl, hs'⟩
  | singleDivide w a b =>
      obtain ⟨s', hrun, hs'⟩ := singleDivide_answers h hc a b
      exact ⟨s', by rw [Call.run, hrun]; rfl, hs'⟩
  | inverse w y =>
      obtain ⟨s', hrun, hs'⟩ := inverse_answers h hc y
      exact ⟨s', by rw [Call.run, hrun]; rfl, hs'⟩
  | w08RegionMultiply region multby r2 add =>
      obtain ⟨s', hrun, hs'⟩ := w08RegionMultiply_answers h hc multby
      exact ⟨s', by rw [Call.run, hrun]; rfl, hs'⟩
  | w16RegionMultiply region multby r2 add =>
      obtain ⟨s', hrun, hs'⟩ := w16RegionMultiply_answers h hc multby
      exact ⟨s', by rw [Call.run, hrun]; rfl, hs'⟩
  | w32RegionMultiply region multby r2 add =>
      obtain ⟨s', hrun, hs'⟩ := w32RegionMultiply_answers h region multby r2 add
      exact ⟨s', by rw [Call.run, hrun]; rfl, hs'⟩

theorem run_plain (calls : List Call) (hcalls : ∀ c ∈ calls, c.Allowed) (h : s.Valid) :
    ∃ s', run calls s = some (calls.map Call.plain, s') ∧ s'.Valid := by
  induction calls generalizing s with
  | nil => exact ⟨s, rfl, h⟩
  | cons c calls ih =>
      obtain ⟨s', hrun, hs'⟩ := c.run_plain h (hcalls c List.mem_cons_self)
      obtain ⟨s'', hruns, hs''⟩ := ih (fun c hc => hcalls c (List.mem_cons_of_mem _ hc)) hs'
      refine ⟨s'', ?_, hs''⟩
      simp only [run, hrun, hruns, Option.bind_eq_bind, Option.bind_some, List.map_cons]
      rfl

end Sddr.Erasure.Tables
