import Sddr.Radio.Lemmas.Insertions

/-! # Main results about the contents of Bloom filters -/

namespace Sddr.Radio
open Sddr.Lib Sddr.Codec Sddr.Device

variable {P D : Type} [FloatOps P] [IsDevice D P]

/-- A filter takes `BF_N` insertions, unless a scheme with passive confirmation leaves the shared secrets out. -/
theorem fillBloomFilter_load_iff (sha256 : List Byte → Digest) (rand : Nat → Nat) (r : EbNRadio P D)
    (bloom : BloomFilter P) (pre : List Byte) (includePassive : Bool) :
    let i := r.insertions includePassive
    fillBloomFilter sha256 rand r bloom pre includePassive
        = (i.indices sha256 rand bloom pre).foldl BloomFilter.set bloom ∧
      (i.indices sha256 rand bloom pre).length = i.count * bloom.K ∧
      (i.count = BF_N ↔ ¬ (r.confirmScheme.type.hasPassive = true ∧ includePassive = false)) := by
  refine ⟨fillBloomFilter_eq sha256 rand r bloom pre includePassive, length_indices _ sha256 rand bloom pre, ?_⟩
  rw [insertions_count]
  cases r.confirmScheme.type.hasPassive <;> cases includePassive <;> simp [BF_N, BF_N_PASSIVE]

/-- The filter of an active handshake in the hybrid scheme has half of its load. -/
theorem fillBloomFilter_load_fails :
    let r : EbNRadio LogRate (EbNDevice LogRate) := EbNRadio.new ⟨.Hybrid, FloatOps.one⟩ .Standard 0
    let bloom : BloomFilter LogRate := BloomFilter.new BF_N 1108 3
    let i := r.insertions false
    i.count = 128 ∧ (i.indices (fun _ => 0) (fun _ => 0) bloom []).length ≠ BF_N * bloom.K := by
  decide +kernel

/-- The secrets that are inserted are as many as they should be, but they are the most confident ones only if there are
no others. -/
theorem passive_confident_iff {K : Type} [LinearOrder K] (val : P → K) (hordered : FloatOps.Ordered val)
    (sha256 : List Byte → Digest) (rand : Nat → Nat) (r : EbNRadio P D) (hscheme : r.confirmScheme.type.hasPassive = true)
    (bloom : BloomFilter P) (pre : List Byte) :
    let secrets := recentSecrets r
    let i := r.insertions true
    let left := (passiveSecrets secrets).2
    fillBloomFilter sha256 rand r bloom pre true = (i.indices sha256 rand bloom pre).foldl BloomFilter.set bloom ∧
      (i.passive ++ left).Perm secrets ∧ i.passive.length = min BF_N_PASSIVE secrets.length ∧
      ((∀ s ∈ i.passive, ∀ out ∈ left, val s.pFalse ≤ val out.pFalse)
        ↔ secrets.length ≤ BF_N_PASSIVE ∨ ∀ s ∈ secrets, ∀ s' ∈ secrets, val s.pFalse = val s'.pFalse) := by
  intro secrets i left
  rw [insertions_secrets hscheme]
  exact ⟨fillBloomFilter_eq sha256 rand r bloom pre true, passiveSecrets_perm secrets, length_passiveSecrets secrets,
    passiveSecrets_confident_iff hordered secrets⟩

/-- A radio with one recent device, which has the secrets given. -/
def radioWith (secrets : List (SharedSecret LogRate)) : EbNRadio LogRate (EbNDevice LogRate) :=
  { (EbNRadio.new ⟨.Passive, some 4⟩ .Standard 0 : EbNRadio LogRate (EbNDevice LogRate)) with
    heap := fun _ => some { EbNDevice.new 0 [] [] with sharedSecrets := secrets }
    recent := ⟨[(0, 0)], ∅, 1⟩ }

theorem radioWith_hasPassive (secrets : List (SharedSecret LogRate)) :
    (radioWith secrets).confirmScheme.type.hasPassive = true :=
  show ConfirmType.Passive.hasPassive = true by decide

theorem passive_confident_iff_two :
    let r := radioWith [⟨[1], some 1, false, .none⟩, ⟨[2], some 0, false, .none⟩]
    let secrets := recentSecrets r
    let i := r.insertions true
    let left := (passiveSecrets secrets).2
    let bloom : BloomFilter LogRate := BloomFilter.new BF_N 1703 4
    fillBloomFilter (fun _ => 0) (fun n => n) r bloom [] true
        = (i.indices (fun _ => 0) (fun n => n) bloom []).foldl BloomFilter.set bloom ∧
      (i.passive ++ left).Perm secrets ∧ i.passive.length = min BF_N_PASSIVE secrets.length ∧
      ((∀ s ∈ i.passive, ∀ out ∈ left, LogRate.val s.pFalse ≤ LogRate.val out.pFalse)
        ↔ secrets.length ≤ BF_N_PASSIVE ∨ ∀ s ∈ secrets, ∀ s' ∈ secrets, LogRate.val s.pFalse = LogRate.val s'.pFalse) :=
  passive_confident_iff LogRate.val LogRate.exact.toOrdered (fun _ => 0) (fun n => n) _ (radioWith_hasPassive _) _ []

/-- Of 129 secrets, the only one that three filters have held is left out. -/
theorem passive_confident_fails :
    let secret : Nat → SharedSecret LogRate := fun n =>
      ⟨[BitVec.ofNat 8 n], if n = 0 then some 3 else some 0, false, .none⟩
    let r := radioWith ((List.range 129).map secret)
    ¬ ∀ s ∈ (r.insertions true).passive, ∀ out ∈ (passiveSecrets (recentSecrets r)).2,
      LogRate.val s.pFalse ≤ LogRate.val out.pFalse := by
  intro secret r
  have hsecrets : recentSecrets r = (List.range 129).map secret := by
    simp [recentSecrets, r, radioWith, IsDevice.base, secret, EbNDevice.new]
  rw [insertions_secrets (radioWith_hasPassive _), passiveSecrets_confident_iff LogRate.exact.toOrdered, hsecrets]
  rintro (hfew | hsame)
  · exact absurd hfew (by decide +kernel)
  · have hequal := hsame (secret 0) (List.mem_map_of_mem (by decide)) (secret 1) (List.mem_map_of_mem (by decide))
    norm_num [secret, LogRate.val] at hequal

end Sddr.Radio
