import Mathlib.Tactic.Tauto
import Sddr.Codec.Lemmas.Bloom
import Sddr.Radio.Insertions

/-! # How much fillBloomFilter inserts, and which secrets -/

namespace Sddr.Radio
open Sddr.Lib Sddr.Codec Sddr.Device

variable {P D : Type} [FloatOps P] [IsDevice D P]

/-! ## Calls of set -/

omit [FloatOps P] in
theorem setIndices_eq (b : BloomFilter P) (index : Nat → Nat) (n : Nat) :
    b.setIndices index n = ((List.range n).map index).foldl BloomFilter.set b := by
  rw [BloomFilter.setIndices, List.foldl_map]

omit [FloatOps P] in
theorem foldl_set_keeps (indices : List Nat) (b : BloomFilter P) :
    (indices.foldl BloomFilter.set b).K = b.K ∧ (indices.foldl BloomFilter.set b).M = b.M := by
  induction indices generalizing b with
  | nil => exact ⟨rfl, rfl⟩
  | cons index indices ih => exact ih (b.set index)

omit [FloatOps P] in
theorem get_foldl_set (indices : List Nat) (b : BloomFilter P) (j : Nat) :
    (indices.foldl BloomFilter.set b).bits.get j = true ↔ j ∈ indices ∨ b.bits.get j = true := by
  induction indices generalizing b with
  | nil => simp
  | cons index indices ih =>
      rw [List.foldl_cons, ih, BloomFilter.set, BitMap.get_set, Bool.or_eq_true, decide_eq_true_iff, List.mem_cons]
      tauto

omit [FloatOps P] in
/-- A call of `add` sets the bits of one link value. -/
theorem foldl_add_eq (sha256 : List Byte → Digest) (pre : List Byte) (linkValues : List LinkValue)
    (b : BloomFilter P) :
    linkValues.foldl (fun acc v => acc.add sha256 pre v) b
      = (linkValues.flatMap fun v => (List.range b.K).map fun k => (sha256 (pre ++ v)).word k % b.M).foldl
          BloomFilter.set b := by
  induction linkValues generalizing b with
  | nil => rfl
  | cons v linkValues ih =>
      rw [List.foldl_cons, ih, List.flatMap_cons, List.foldl_append, BloomFilter.add, BloomFilter.addHash, setIndices_eq,
        (foldl_set_keeps _ b).1, (foldl_set_keeps _ b).2]

theorem insertions_passive (r : EbNRadio P D) (includePassive : Bool) :
    (r.insertions includePassive).passive.map SharedSecret.value
      = passiveValues r.confirmScheme.type (recentSecrets r) includePassive := by
  unfold EbNRadio.insertions passiveSecrets passiveValues
  dsimp only
  rw [List.splitAt_eq]
  split_ifs <;> rfl

theorem insertions_secrets {r : EbNRadio P D} (hscheme : r.confirmScheme.type.hasPassive = true) :
    (r.insertions true).passive = (passiveSecrets (recentSecrets r)).1 := by
  rw [EbNRadio.insertions, hscheme]
  rfl

theorem fillBloomFilter_eq (sha256 : List Byte → Digest) (rand : Nat → Nat) (r : EbNRadio P D) (bloom : BloomFilter P)
    (pre : List Byte) (includePassive : Bool) :
    fillBloomFilter sha256 rand r bloom pre includePassive
      = ((r.insertions includePassive).indices sha256 rand bloom pre).foldl BloomFilter.set bloom := by
  have hrandom : (r.insertions includePassive).numRandom = (maxAdvert r.confirmScheme.type
      - (r.advertisedSet.take (maxAdvert r.confirmScheme.type)).length) + if includePassive && r.confirmScheme.type.hasPassive
        then BF_N_PASSIVE - (passiveValues r.confirmScheme.type (recentSecrets r) includePassive).length else 0 := by
    rw [← insertions_passive, List.length_map]
    rfl
  unfold fillBloomFilter Insertions.indices
  dsimp only
  rw [← hrandom, ← insertions_passive, ← List.foldl_append, foldl_add_eq, BloomFilter.addRandom, setIndices_eq,
    List.foldl_append, (foldl_set_keeps _ bloom).1, (foldl_set_keeps _ bloom).2]
  rfl

/-! ## Counts -/

omit [FloatOps P] in
theorem length_indices (i : Insertions P) (sha256 : List Byte → Digest) (rand : Nat → Nat) (bloom : BloomFilter P)
    (pre : List Byte) : (i.indices sha256 rand bloom pre).length = i.count * bloom.K := by
  rw [Insertions.indices, List.length_append, List.length_map, List.length_range, List.length_flatMap]
  rw [show (fun v => ((List.range bloom.K).map fun k => (sha256 (pre ++ v)).word k % bloom.M).length)
    = fun _ => bloom.K from funext fun v => by rw [List.length_map, List.length_range]]
  rw [List.map_const', List.sum_replicate_nat]
  rw [Insertions.linkValues, List.length_append, List.length_map, Insertions.count, Nat.mul_comm bloom.K, ← Nat.add_mul]

/-- Nothing takes the place of the secrets for passive confirmation where they are left out. -/
theorem insertions_count (r : EbNRadio P D) (includePassive : Bool) :
    (r.insertions includePassive).count
      = if r.confirmScheme.type.hasPassive && !includePassive then BF_N - BF_N_PASSIVE else BF_N := by
  have hadvertised : (r.advertisedSet.take (maxAdvert r.confirmScheme.type)).length ≤ maxAdvert r.confirmScheme.type :=
    List.length_take_le _ _
  have hpassive : (passiveSecrets (recentSecrets r)).1.length ≤ BF_N_PASSIVE := by
    rw [passiveSecrets, List.splitAt_eq]
    exact List.length_take_le _ _
  have hrandom := Nat.add_sub_of_le hadvertised
  have hfilled := Nat.add_sub_of_le hpassive
  rw [Insertions.count, EbNRadio.insertions]
  dsimp only
  by_cases hscheme : r.confirmScheme.type.hasPassive = true
  · have hmax : maxAdvert r.confirmScheme.type = BF_N - BF_N_PASSIVE := if_pos hscheme
    have hsum : BF_N - BF_N_PASSIVE + BF_N_PASSIVE = BF_N := rfl
    cases includePassive with
    | false =>
        simp only [hscheme, Bool.false_and, Bool.false_eq_true, if_false, List.length_nil, Bool.not_false, Bool.and_self,
          if_true]
        omega
    | true =>
        simp only [hscheme, Bool.and_self, if_true, Bool.not_true, Bool.and_false, Bool.false_eq_true, if_false]
        omega
  · have hmax : maxAdvert r.confirmScheme.type = BF_N := if_neg hscheme
    simp only [hscheme, Bool.and_false, Bool.false_and, Bool.false_eq_true, if_false, List.length_nil]
    omega

/-! ## The queue -/

omit [IsDevice D P] in
theorem passiveSecrets_perm (secrets : List (SharedSecret P)) :
    ((passiveSecrets secrets).1 ++ (passiveSecrets secrets).2).Perm secrets := by
  rw [passiveSecrets, List.splitAt_eq]
  dsimp only
  rw [List.take_append_drop]
  exact List.mergeSort_perm _ _

theorem length_passiveSecrets (secrets : List (SharedSecret P)) :
    (passiveSecrets secrets).1.length = min BF_N_PASSIVE secrets.length := by
  rw [passiveSecrets, List.splitAt_eq, List.length_take, popOrder, List.length_mergeSort]

variable {K : Type} [LinearOrder K] {val : P → K}

/-- The largest rates are popped first. -/
theorem popOrder_sorted (hordered : FloatOps.Ordered val) (secrets : List (SharedSecret P)) :
    (popOrder secrets).Pairwise fun a b => val b.pFalse ≤ val a.pFalse := by
  have hle : ∀ a b : SharedSecret P, (!FloatOps.lt a.pFalse b.pFalse) = true ↔ val b.pFalse ≤ val a.pFalse := by
    intro a b
    rw [Bool.not_eq_true', ← Bool.not_eq_true, hordered.lt_iff, not_lt]
  refine (List.pairwise_mergeSort ?_ ?_ secrets).imp fun {a b} hab => (hle a b).mp hab
  · exact fun a b c hab hbc => (hle a c).mpr (le_trans ((hle b c).mp hbc) ((hle a b).mp hab))
  · intro a b
    rw [Bool.or_eq_true, hle, hle]
    exact le_total _ _

/-- Those that are popped have the smallest rates only if there is no choice. -/
theorem passiveSecrets_confident_iff (hordered : FloatOps.Ordered val) (secrets : List (SharedSecret P)) :
    (∀ s ∈ (passiveSecrets secrets).1, ∀ out ∈ (passiveSecrets secrets).2, val s.pFalse ≤ val out.pFalse)
      ↔ secrets.length ≤ BF_N_PASSIVE ∨ ∀ s ∈ secrets, ∀ s' ∈ secrets, val s.pFalse = val s'.pFalse := by
  have hperm := passiveSecrets_perm secrets
  have hpoppedLength := length_passiveSecrets secrets
  have hlength := hperm.length_eq
  rw [List.length_append, hpoppedLength] at hlength
  have hsorted := popOrder_sorted hordered secrets
  rw [← List.take_append_drop BF_N_PASSIVE (popOrder secrets)] at hsorted
  have hpopped : ∀ s ∈ (passiveSecrets secrets).1, ∀ out ∈ (passiveSecrets secrets).2, val out.pFalse ≤ val s.pFalse := by
    rw [passiveSecrets, List.splitAt_eq]
    exact (List.pairwise_append.mp hsorted).2.2
  generalize passiveSecrets secrets = split at *
  obtain ⟨popped, left⟩ := split
  dsimp only at hperm hpoppedLength hlength hpopped ⊢
  constructor
  · intro hconfident
    refine or_iff_not_imp_left.mpr fun hmany => ?_
    have hpop : popped ≠ [] := by
      rw [← List.length_pos_iff, hpoppedLength]
      exact lt_min (by decide) (by omega)
    have hleft : left ≠ [] := by
      rw [← List.length_pos_iff]
      omega
    obtain ⟨a, ha⟩ := List.exists_mem_of_ne_nil popped hpop
    obtain ⟨out, hout⟩ := List.exists_mem_of_ne_nil left hleft
    have hsame : ∀ s ∈ secrets, val s.pFalse = val out.pFalse := by
      intro s hs
      rcases List.mem_append.mp (hperm.mem_iff.mpr hs) with hin | hin
      · exact le_antisymm (hconfident s hin out hout) (hpopped s hin out hout)
      · have hfirst := le_antisymm (hconfident a ha out hout) (hpopped a ha out hout)
        exact (le_antisymm (hpopped a ha s hin) (hconfident a ha s hin)).trans hfirst
    exact fun s hs s' hs' => (hsame s hs).trans (hsame s' hs').symm
  · rintro (hfew | hsame) s hs out hout
    · have hnone : left = [] := by
        rw [← List.length_eq_zero_iff]
        omega
      rw [hnone] at hout
      cases hout
    · exact (hsame s (hperm.mem_iff.mp (List.mem_append_left _ hs)) out
        (hperm.mem_iff.mp (List.mem_append_right _ hout))).le

end Sddr.Radio
