import Sddr.Erasure.Lemmas.Invert

/-!
# jerasure_matrix_decode recovers the data

`values` are what the devices held when they were encoded. The loop over the data devices restores them in order,
and the parity row restores the last one when coding device 0 is there.
-/

namespace Sddr.Erasure
open Sddr.Lib

variable {g : Galois} {w k m : Nat}

/-! ## Lists of devices -/

/-- The last of the first `k` numbers that satisfy `p`. -/
theorem getLast?_filter_range (p : Nat → Bool) (k : Nat) :
    (((List.range k).filter p).getLast? = none → ∀ d < k, p d = false) ∧
      ∀ last, ((List.range k).filter p).getLast? = some last →
        last < k ∧ p last = true ∧ ∀ d, last < d → d < k → p d = false := by
  induction k with
  | zero => exact ⟨fun _ d hd => absurd hd (Nat.not_lt_zero d), fun last h => by simp at h⟩
  | succ k ih =>
      rw [List.range_succ, List.filter_append]
      cases hk : p k with
      | true =>
          simp only [List.filter_cons, hk, if_true, List.filter_nil, List.getLast?_append, List.getLast?_singleton,
            Option.some_or, reduceCtorEq, false_implies, Option.some.injEq, true_and]
          rintro last rfl
          exact ⟨by omega, hk, fun d hd hlt => by omega⟩
      | false =>
          simp only [List.filter_cons, hk, Bool.false_eq_true, if_false, List.filter_nil, List.append_nil]
          refine ⟨fun hnone d hd => ?_, fun last hlast => ?_⟩
          · rcases Nat.lt_succ_iff_lt_or_eq.mp hd with hlt | rfl
            · exact ih.1 hnone d hlt
            · exact hk
          · obtain ⟨hlt, hp, hafter⟩ := ih.2 last hlast
            refine ⟨by omega, hp, fun d hd hdk => ?_⟩
            rcases Nat.lt_succ_iff_lt_or_eq.mp hdk with hdk | rfl
            · exact hafter d hd hdk
            · exact hk

/-- How many of the first `i` devices are erased. -/
abbrev erasedBefore (erased : Nat → Bool) (i : Nat) : Nat := ((List.range i).filter erased).length

theorem erasedBefore_succ (erased : Nat → Bool) (i : Nat) :
    erasedBefore erased (i + 1) = erasedBefore erased i + if erased i then 1 else 0 := by
  rw [erasedBefore, List.range_succ, List.filter_append, List.length_append]
  cases h : erased i <;> simp [h]

theorem erasedBefore_mono (erased : Nat → Bool) {i j : Nat} (h : i ≤ j) :
    erasedBefore erased i ≤ erasedBefore erased j := by
  induction j with
  | zero => rw [Nat.le_zero.mp h]
  | succ j ih =>
      rcases Nat.lt_succ_iff_lt_or_eq.mp (Nat.lt_succ_of_le h) with hlt | rfl
      · rw [erasedBefore_succ]
        exact Nat.le_add_right_of_le (ih (by omega))
      · exact Nat.le_refl _

/-- The devices to decode from: `k` different ones that are not erased. -/
theorem decodingIds_spec {erased : Nat → Bool}
    (h : k ≤ ((List.range (k + m)).filter fun d => !erased d).length) :
    (∀ i < k, decodingIds k m erased i < k + m ∧ erased (decodingIds k m erased i) = false) ∧
      ∀ i < k, ∀ j < k, decodingIds k m erased i = decodingIds k m erased j → i = j := by
  have hget : ∀ i < k, ∃ hi : i < ((List.range (k + m)).filter fun d => !erased d).length,
      decodingIds k m erased i = ((List.range (k + m)).filter fun d => !erased d)[i] := by
    intro i hi
    refine ⟨by omega, ?_⟩
    rw [decodingIds, List.getD_eq_getElem?_getD, List.getElem?_eq_getElem (by omega), Option.getD_some]
  refine ⟨fun i hi => ?_, fun i hi j hj heq => ?_⟩
  · obtain ⟨hlt, hid⟩ := hget i hi
    have hmem := List.getElem_mem hlt
    rw [← hid, List.mem_filter, List.mem_range] at hmem
    exact ⟨hmem.1, by simpa using hmem.2⟩
  · obtain ⟨hlti, hidi⟩ := hget i hi
    obtain ⟨hltj, hidj⟩ := hget j hj
    exact (List.nodup_range.filter _).getElem_inj_iff.mp (hidi.symm.trans (heq.trans hidj))

/-! ## The decoding matrix -/

variable [Fact (g.IsField w)] [NeZero w] {matrix : IntMatrix w} {values : Nat → BitVec w} {erased : Nat → Bool}

/-- The values of the devices: the coding devices hold the products of their rows with the data. -/
def Encoded (g : Galois) (k m : Nat) (matrix : IntMatrix w) (values : Nat → BitVec w) : Prop :=
  ∀ i < m, values (k + i) = g.dot k (matrix i) values

theorem Encoded.deviceRow (h : Encoded g k m matrix values) {d : Nat} (hd : d < k + m) :
    g.dot k (deviceRow k matrix d) values = values d := by
  by_cases hdata : d < k
  · apply GF.of_inj.mp
    rw [GF.of_dot, dot_unit hdata]
    intro i _
    simp only [Erasure.deviceRow, if_pos hdata]
    split_ifs <;> rfl
  · have hrow : Erasure.deviceRow k matrix d = matrix (d - k) := by
      funext j
      simp only [Erasure.deviceRow, if_neg hdata]
    rw [hrow, ← h (d - k) (by omega)]
    congr 1
    omega

/-- The decoding matrix computes every data device from the devices to decode from. -/
theorem makeDecodingMatrix_spec (hmds : MDS g k m matrix)
    (hleft : k ≤ ((List.range (k + m)).filter fun d => !erased d).length) :
    ∃ inv, makeDecodingMatrix g k m matrix erased = some inv ∧
      (∀ values, Encoded g k m matrix values → ∀ r < k,
        values r = g.dot k (inv r) fun c => values (decodingIds k m erased c)) ∧
      ∀ r < k, ∃ c < k, inv r c ≠ 0 := by
  obtain ⟨hids, hinj⟩ := decodingIds_spec (m := m) hleft
  have hregular : Regular k (ofRows g fun i => deviceRow k matrix (decodingIds k m erased i)) := by
    intro x hx i hi
    refine hmds _ (fun i hi => (hids i hi).1) hinj x (fun r hr => ?_) i hi
    exact GF.of_inj.mp ((GF.of_dot k _ _).trans (hx r hr))
  obtain ⟨inv, hrun, hinv⟩ := invertMatrix_spec hregular
  refine ⟨inv, hrun, fun values hvalues r hr => ?_, fun r hr => ?_⟩
  · apply GF.of_inj.mp
    rw [GF.of_dot]
    refine hinv (fun i => GF.of (values i)) (fun c => GF.of (values (decodingIds k m erased c))) (fun c hc => ?_) r hr
    rw [← hvalues.deviceRow (hids c hc).1, GF.of_dot]
  · by_contra hnone
    have hzero : ∀ c < k, inv r c = 0 := by
      intro c hc
      by_contra hne
      exact hnone ⟨c, hc, hne⟩
    have hunit := hinv (fun i => if i = r then 1 else 0) _ (fun _ _ => rfl) r hr
    rw [if_pos rfl, dot, Finset.sum_eq_zero] at hunit
    · exact one_ne_zero hunit
    · intro c hc
      rw [ofRows, hzero c (Finset.mem_range.mp hc), GF.of_zero, zero_mul]

/-! ## Data devices -/

variable {drives : Drives w} {j : Nat}

/-- Before device `i` of the loop: the devices that were there and those already decoded hold their values, and
`s.1` counts the erased ones left. -/
structure DecodedBefore (k m : Nat) (erased : Nat → Bool) (values : Nat → BitVec w) (j i : Nat)
    (s : Nat × Drives w) : Prop where
  left : s.1 + erasedBefore erased i = erasedBefore erased k
  values : ∀ d < k + m, erased d = false ∨ d < i → s.2 d j = values d

theorem DecodedBefore.step {i : Nat} {s : Nat × Drives w} {inv : IntMatrix w} {ids : Nat → Nat}
    (h : DecodedBefore k m erased values j i s) (hi : i < k)
    (hids : ∀ c < k, ids c < k + m ∧ erased (ids c) = false)
    (hinv : erased i = true → values i = g.dot k (inv i) (fun c => values (ids c)) ∧ ∃ c < k, inv i c ≠ 0) :
    DecodedBefore k m erased values j (i + 1) (decodeDrive g k erased inv ids s i) := by
  have hcount := erasedBefore_succ erased i
  have hleft := h.left
  cases herased : erased i with
  | false =>
      rw [herased] at hcount
      have hskip : decodeDrive g k erased inv ids s i = s := by simp [decodeDrive, herased]
      rw [hskip]
      refine ⟨by simpa [hcount] using hleft, fun d hd hor => h.values d hd ?_⟩
      rcases hor with hthere | hlt
      · exact Or.inl hthere
      · rcases Nat.lt_succ_iff_lt_or_eq.mp hlt with hlt | rfl
        · exact Or.inr hlt
        · exact Or.inl herased
  | true =>
      rw [herased, if_pos rfl] at hcount
      have hmono := erasedBefore_mono erased (show i + 1 ≤ k by omega)
      obtain ⟨hvalue, hne⟩ := hinv herased
      have hdecode : decodeDrive g k erased inv ids s i = (s.1 - 1, matrixDotprod g k (inv i) ids i s.2) := by
        rw [decodeDrive, if_pos ⟨by omega, herased⟩]
      rw [hdecode]
      refine ⟨by simp only; omega, fun d hd hor => ?_⟩
      by_cases hdi : d = i
      · subst hdi
        refine (matrixDotprod_spec GF.isField GF.one_ne_zero_word (fun c hc _ heq => ?_) hne j).trans ?_
        · have hthere := (hids c hc).2
          rw [heq, herased] at hthere
          cases hthere
        · rw [hvalue, Galois.dot, Galois.dot]
          exact xorSum_congr fun c hc => by rw [h.values _ (hids c hc).1 (Or.inl (hids c hc).2)]
      · simp only
        rw [matrixDotprod_other hdi]
        exact h.values d hd (hor.imp_right fun hlt => by omega)

/-- Leaving out the summand `last` of the first `k + 1`. -/
theorem sum_skip {F : Type} [AddCommMonoid F] (f : Nat → F) {last : Nat} (h : last ≤ k) :
    ∑ i ∈ Finset.range (k + 1), f i = f last + ∑ i ∈ Finset.range k, f (if i < last then i else i + 1) := by
  induction k with
  | zero =>
      rw [Nat.le_zero.mp h]
      simp
  | succ k ih =>
      rcases Nat.lt_succ_iff_lt_or_eq.mp (Nat.lt_succ_of_le h) with hlt | rfl
      · rw [Finset.sum_range_succ, ih (by omega), Finset.sum_range_succ _ k, if_neg (by omega), add_assoc]
      · rw [Finset.sum_range_succ, add_comm]
        congr 1
        exact Finset.sum_congr rfl fun i hi => by rw [if_pos (Finset.mem_range.mp hi)]

/-- With a first coding row of ones, a data device is the sum of the others and of coding device 0. -/
theorem parity_spec (hones : ∀ c < k, matrix 0 c = 1) (hvalues : Encoded g k m matrix values) (hm : 0 < m)
    {last : Nat} (hlast : last < k) :
    values last = g.dot k (matrix 0) fun i => values (if i < last then i else i + 1) := by
  have hsum : ∀ x : Nat → BitVec w,
      (GF.of (g.dot k (matrix 0) x) : GF g w) = ∑ i ∈ Finset.range k, GF.of (x i) := by
    intro x
    rw [GF.of_dot, dot]
    exact Finset.sum_congr rfl fun i hi => by rw [hones i (Finset.mem_range.mp hi), GF.of_one, one_mul]
  have hparity : (GF.of (values k) : GF g w) = ∑ i ∈ Finset.range k, GF.of (values i) := by
    rw [← hsum, ← hvalues 0 hm, Nat.add_zero]
  have hskip := sum_skip (fun i => (GF.of (values i) : GF g w)) (Nat.le_of_lt hlast)
  rw [Finset.sum_range_succ, ← hparity, GF.add_self] at hskip
  apply GF.of_inj.mp
  rw [hsum, ← add_right_inj (GF.of (values last) : GF g w), GF.add_self]
  exact hskip

/-! ## The whole decoder -/

omit [Fact (g.IsField w)] [NeZero w] in
theorem foldl_reencode (l : List Nat) (drives : Drives w) {d : Nat} (hd : d < k) :
    (l.foldl (fun acc i => if erased (k + i) then matrixDotprod g k (matrix i) id (i + k) acc else acc) drives) d
      = drives d := by
  induction l generalizing drives with
  | nil => rfl
  | cons i l ih =>
      rw [List.foldl_cons, ih]
      split_ifs
      · exact matrixDotprod_other (by omega)
      · rfl

/-- The loop stops at `k`, or before the last erased data device when coding device 0 is there. -/
theorem lastDrive_spec (k : Nat) (erased : Nat → Bool) :
    lastDrive k true erased ≤ k ∧ (lastDrive k true erased < k →
      erased k = false ∧ erased (lastDrive k true erased) = true ∧
        ∀ d, lastDrive k true erased < d → d < k → erased d = false) := by
  obtain ⟨_, hlast⟩ := getLast?_filter_range erased k
  unfold lastDrive
  cases hparity : erased k with
  | true => exact ⟨Nat.le_refl k, fun hlt => absurd hlt (Nat.lt_irrefl k)⟩
  | false =>
      simp only [Bool.not_true, Bool.or_false, Bool.false_eq_true, if_false]
      cases hget : ((List.range k).filter erased).getLast? with
      | none => exact ⟨Nat.le_refl k, fun hlt => absurd hlt (Nat.lt_irrefl k)⟩
      | some last =>
          obtain ⟨hlt, herased, hafter⟩ := hlast last hget
          exact ⟨Nat.le_of_lt hlt, fun _ => ⟨trivial, herased, hafter⟩⟩

theorem erasedBefore_lt {i d : Nat} (hid : i ≤ d) (hdk : d < k) (herased : erased d = true) :
    erasedBefore erased i < erasedBefore erased k := by
  have hsucc := erasedBefore_succ erased d
  rw [herased, if_pos rfl] at hsucc
  have h1 := erasedBefore_mono erased hid
  have h2 := erasedBefore_mono erased (show d + 1 ≤ k by omega)
  omega

omit [Fact (g.IsField w)] [NeZero w] in
/-- The loop over the data devices reads the decoding matrix only where it was made. -/
theorem decodingMatrix_spec {inv : IntMatrix w} (hmake : makeDecodingMatrix g k m matrix erased = some inv) :
    ∃ decoding, decodingMatrix g k m matrix true erased = some decoding ∧
      ∀ i < lastDrive k true erased, erased i = true → decoding = inv := by
  unfold decodingMatrix
  split_ifs with hneed
  · exact ⟨inv, hmake, fun _ _ _ => rfl⟩
  · refine ⟨fun _ _ => 0, rfl, fun i hi herased => absurd ?_ hneed⟩
    obtain ⟨hle, hbefore⟩ := lastDrive_spec k erased
    have hcount := erasedBefore_lt (Nat.zero_le i) (show i < k by omega) herased
    rcases Nat.lt_or_eq_of_le hle with hlt | heq
    · -- two erased data devices: `i` and the last one
      obtain ⟨_, herasedLast, _⟩ := hbefore hlt
      have h1 := erasedBefore_lt (Nat.zero_le i) hi herased
      have h2 := erasedBefore_lt (Nat.le_refl _) hlt herasedLast
      exact Or.inl (by change 1 < erasedBefore erased k; omega)
    · cases hparity : erased k with
      | true => exact Or.inr ⟨by change 0 < erasedBefore erased k; omega, rfl⟩
      | false =>
          exfalso
          obtain ⟨hnone, hlast⟩ := getLast?_filter_range erased k
          simp only [lastDrive, hparity, Bool.not_true, Bool.or_false, Bool.false_eq_true, if_false] at heq
          cases hget : ((List.range k).filter erased).getLast? with
          | none =>
              rw [hnone hget i (by omega)] at herased
              cases herased
          | some last =>
              rw [hget, Option.getD_some] at heq
              have := (hlast last hget).1
              omega

/-- The loop over the data devices. -/
theorem decodedBefore_loop {inv : IntMatrix w} {ids : Nat → Nat} {n : Nat} (hn : n ≤ k)
    (hids : ∀ c < k, ids c < k + m ∧ erased (ids c) = false)
    (hinv : ∀ i < n, erased i = true →
      values i = g.dot k (inv i) (fun c => values (ids c)) ∧ ∃ c < k, inv i c ≠ 0)
    (hagree : ∀ d < k + m, erased d = false → drives d j = values d) :
    DecodedBefore k m erased values j n
      ((List.range n).foldl (decodeDrive g k erased inv ids) (erasedData k erased, drives)) := by
  induction n with
  | zero => exact ⟨rfl, fun d hd hor => hagree d hd (hor.resolve_right (Nat.not_lt_zero d))⟩
  | succ n ih =>
      rw [List.range_succ, List.foldl_append]
      exact (ih (by omega) fun i hi => hinv i (by omega)).step (by omega) hids (hinv n (Nat.lt_succ_self n))

section
variable {s : Nat × Drives w} (hdone : DecodedBefore k m erased values j (lastDrive k true erased) s)
include hdone

omit [Fact (g.IsField w)] [NeZero w]

/-- Where the loop leaves an erased device, only the last one of them is left. -/
theorem DecodedBefore.others (hlt : lastDrive k true erased < k) {d : Nat} (hd : d < k + m) (hdk : d ≤ k)
    (hne : d ≠ lastDrive k true erased) : s.2 d j = values d := by
  obtain ⟨hparity, -, hafter⟩ := (lastDrive_spec k erased).2 hlt
  refine hdone.values d hd ?_
  rcases Nat.lt_or_gt_of_ne hne with hbefore | hbehind
  · exact Or.inr hbefore
  · rcases Nat.lt_or_eq_of_le hdk with hdk | rfl
    · exact Or.inl (hafter d hbehind hdk)
    · exact Or.inl hparity

theorem DecodedBefore.lastDrive_lt (hmore : s.1 > 0) : lastDrive k true erased < k := by
  rcases Nat.lt_or_eq_of_le (lastDrive_spec k erased).1 with hlt | heq
  · exact hlt
  · have hleft := hdone.left
    rw [heq] at hleft
    omega

/-- Where the loop leaves no erased device, it is done. -/
theorem DecodedBefore.all (hnone : ¬ s.1 > 0) {d : Nat} (hd : d < k) : s.2 d j = values d := by
  refine hdone.values d (by omega) ?_
  by_cases hdl : d < lastDrive k true erased
  · exact Or.inr hdl
  · cases hed : erased d with
    | false => exact Or.inl rfl
    | true =>
        have := erasedBefore_lt (Nat.le_of_not_lt hdl) hd hed
        have hleft := hdone.left
        omega

end

/-- The parity row restores the last erased data device. -/
theorem DecodedBefore.parity {s : Nat × Drives w}
    (hdone : DecodedBefore k m erased values j (lastDrive k true erased) s) (hm : 0 < m)
    (hones : ∀ c < k, matrix 0 c = 1) (hvalues : Encoded g k m matrix values) (hlt : lastDrive k true erased < k)
    {d : Nat} (hd : d < k) :
    matrixDotprod g k (matrix 0) (fun i => if i < lastDrive k true erased then i else i + 1) (lastDrive k true erased)
      s.2 d j = values d := by
  by_cases hdl : d = lastDrive k true erased
  · rw [hdl, matrixDotprod_spec GF.isField GF.one_ne_zero_word, parity_spec hones hvalues hm hlt]
    · rw [Galois.dot, Galois.dot]
      refine xorSum_congr fun i hi => ?_
      rw [hdone.others hlt]
      all_goals split_ifs <;> omega
    · intro i hi _
      split_ifs <;> omega
    · exact ⟨0, by omega, by rw [hones 0 (by omega)]; exact GF.one_ne_zero_word⟩
  · rw [matrixDotprod_other hdl]
    exact hdone.others hlt (by omega) (by omega) hdl

/-- Decoding gives every data device its value, whichever `k` devices are left. -/
theorem matrixDecode_spec (hm : 0 < m) (hmds : MDS g k m matrix) (hones : ∀ c < k, matrix 0 c = 1)
    {erasures : List Nat} (hleft : k ≤ ((List.range (k + m)).filter fun i => i ∉ erasures).length) :
    ∃ drives', matrixDecode g k m matrix true erasures drives = some drives' ∧
      ∀ values j, Encoded g k m matrix values → (∀ d < k + m, d ∉ erasures → drives d j = values d) →
        ∀ d < k, drives' d j = values d := by
  let erased : Nat → Bool := fun i => decide (i ∈ erasures)
  have hthere : (fun d => !erased d) = fun i => decide (i ∉ erasures) := by funext d; simp [erased]
  have hleft' : k ≤ ((List.range (k + m)).filter fun d => !erased d).length := by rw [hthere]; exact hleft
  obtain ⟨hids, _⟩ := decodingIds_spec (m := m) hleft'
  obtain ⟨inv, hmake, hinv, hrows⟩ := makeDecodingMatrix_spec hmds hleft'
  obtain ⟨decoding, hdecoding, hsame⟩ := decodingMatrix_spec hmake
  obtain ⟨hle, -⟩ := lastDrive_spec k erased
  have herased : erasuresToErased k m erasures = some erased := if_pos hleft
  refine ⟨_, by rw [matrixDecode, herased, Option.bind_some, hdecoding]; rfl, ?_⟩
  intro values j hvalues hagree d hd
  have hrestores : ∀ i < lastDrive k true erased, erased i = true →
      values i = g.dot k (decoding i) (fun c => values (decodingIds k m erased c)) ∧ ∃ c < k, decoding i c ≠ 0 := by
    intro i hi herased
    rw [hsame i hi herased]
    exact ⟨hinv values hvalues i (by omega), hrows i (by omega)⟩
  have hdone := decodedBefore_loop hle hids hrestores fun d hd hthere => hagree d hd (of_decide_eq_false hthere)
  dsimp only
  rw [foldl_reencode _ _ hd]
  split_ifs with hmore
  · exact hdone.parity hm hones hvalues (hdone.lastDrive_lt hmore) hd
  · exact hdone.all hmore hd

end Sddr.Erasure
