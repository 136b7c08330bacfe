import Mathlib.Data.List.Induction
import Mathlib.Data.List.TakeWhile
import Sddr.Device.Evidence
import Sddr.Device.Lemmas.EbNDevice

/-!
# Secrets follow their evidence

`pFalse` of a secret that is not confirmed is the product over its evidence, and above the threshold.
-/

namespace Sddr.Device
open Sddr.Lib Sddr.Codec SecretCall

variable {P K : Type} {sha256 : List Byte → Digest} {v : LinkValue} {calls : List (SecretCall P)}

/-! ## One more call -/

theorem evidence_concat (sha256 : List Byte → Digest) (hknown : (calls.any fun call => call.adds v) = true)
    (call : SecretCall P) :
    evidence sha256 (calls ++ [call]) v
      = if call.lacks sha256 v then [] else call.factor.toList ++ evidence sha256 calls v := by
  obtain ⟨added, hadded, hadds⟩ := List.any_eq_true.mp hknown
  have hdrop : (calls ++ [call]).dropWhile (fun call => !call.adds v)
      = calls.dropWhile (fun call => !call.adds v) ++ [call] := by
    rw [List.dropWhile_append, if_neg]
    rw [List.isEmpty_iff, List.dropWhile_eq_nil_iff]
    intro hall
    simpa [hadds] using hall added hadded
  rw [evidence, hdrop, List.reverse_append, List.reverse_singleton, List.singleton_append, List.takeWhile_cons]
  cases hlacks : call.lacks sha256 v with
  | true => rfl
  | false =>
      cases hfactor : call.factor <;> simp [evidence, hfactor]

theorem evidence_unknown (hunknown : (calls.any fun call => call.adds v) = false) {call : SecretCall P}
    (hadds : call.adds v = true) : evidence sha256 (calls ++ [call]) v = [] := by
  have hdrop : (calls ++ [call]).dropWhile (fun call => !call.adds v) = [call] := by
    rw [List.dropWhile_append, if_pos]
    · rw [List.dropWhile_cons_of_neg (by simp [hadds])]
    · rw [List.isEmpty_iff, List.dropWhile_eq_nil_iff]
      intro other hother
      simpa using List.any_eq_false.mp hunknown other hother
  rw [evidence, hdrop]
  cases call with
  | addSharedSecret | addSharedSecretBy => rfl
  | confirmPassive => cases hadds

/-! ## Adding a secret -/

/-- What is in the list came from it, where the secret of that value may have been confirmed, or is new. -/
theorem mem_insertSecret {secret s : SharedSecret P} {l : List (SharedSecret P)} (hnodup : (values l).Nodup)
    (hs : s ∈ (EbNDevice.insertSecret secret l).1) :
    (∃ s₀ ∈ l, s = if secret.value = s₀.value ∧ s₀.confirmed = false ∧ secret.confirmed = true then
        s₀.confirm secret.confirmedBy else s₀) ∨
      s = secret ∧ secret.value ∉ values l := by
  induction l with
  | nil => exact Or.inr ⟨List.mem_singleton.mp hs, List.not_mem_nil⟩
  | cons it rest ih =>
      obtain ⟨hnot, hrest⟩ := List.nodup_cons.mp hnodup
      have htail : ∀ s ∈ rest, secret.value = it.value →
          s = if secret.value = s.value ∧ s.confirmed = false ∧ secret.confirmed = true then
            s.confirm secret.confirmedBy else s := by
        intro s hs heq
        rw [if_neg]
        rintro ⟨hsame, -⟩
        exact hnot (List.mem_map.mpr ⟨s, hs, hsame.symm.trans heq⟩)
      rw [EbNDevice.insertSecret] at hs
      split_ifs at hs with heq hnew
      · rw [Bool.and_eq_true, Bool.not_eq_true'] at hnew
        rcases List.mem_cons.mp hs with rfl | hs
        · exact Or.inl ⟨it, List.mem_cons_self, by rw [if_pos ⟨heq, hnew⟩]⟩
        · exact Or.inl ⟨s, List.mem_cons_of_mem _ hs, htail s hs heq⟩
      · rw [Bool.and_eq_true, Bool.not_eq_true'] at hnew
        rcases List.mem_cons.mp hs with rfl | hs
        · exact Or.inl ⟨s, List.mem_cons_self, by rw [if_neg fun h => hnew h.2]⟩
        · exact Or.inl ⟨s, List.mem_cons_of_mem _ hs, htail s hs heq⟩
      · rcases List.mem_cons.mp hs with rfl | hs
        · exact Or.inl ⟨s, List.mem_cons_self, by rw [if_neg fun h => heq h.1]⟩
        · obtain ⟨s₀, hs₀, hsame⟩ | ⟨rfl, hnone⟩ := ih hrest hs
          · exact Or.inl ⟨s₀, List.mem_cons_of_mem _ hs₀, hsame⟩
          · exact Or.inr ⟨rfl, fun hin => (List.mem_cons.mp hin).elim heq hnone⟩

theorem sharedSecrets_addSharedSecret (d : EbNDevice P) (secret : SharedSecret P) :
    (d.addSharedSecret secret).sharedSecrets = (EbNDevice.insertSecret secret d.sharedSecrets).1 := by
  unfold EbNDevice.addSharedSecret
  dsimp only
  split_ifs <;> rfl

/-! ## The verdict -/

section
variable [LinearOrder K] [CommMonoid K] {val : P → K} {threshold : P}

theorem verdictFrom_append (before calls more : List (SecretCall P)) :
    verdictFrom sha256 val threshold v before (calls ++ more)
      = (verdictFrom sha256 val threshold v before calls).or (verdictFrom sha256 val threshold v (before ++ calls) more) := by
  induction calls generalizing before with
  | nil => rw [List.nil_append, List.append_nil, verdictFrom, Option.none_or]
  | cons call calls ih =>
      rw [List.cons_append, verdictFrom, verdictFrom, ih, Option.or_assoc, List.append_assoc, List.singleton_append]

theorem verdict_concat (calls : List (SecretCall P)) (call : SecretCall P) :
    verdict sha256 val threshold (calls ++ [call]) v
      = (verdict sha256 val threshold calls v).or (call.confirms sha256 val threshold calls v) := by
  rw [verdict, verdictFrom_append, verdictFrom, verdictFrom, Option.or_none]
  rfl

theorem verdict_unknown (hunknown : (calls.any fun call => call.adds v) = false) :
    verdict sha256 val threshold calls v = none := by
  induction calls using List.reverseRecOn with
  | nil => rfl
  | append_singleton calls call ih =>
      rw [List.any_append, Bool.or_eq_false_iff, List.any_cons, List.any_nil, Bool.or_false] at hunknown
      obtain ⟨hbefore, hcall⟩ := hunknown
      rw [verdict_concat, ih hbefore, Option.none_or]
      cases call with
      | addSharedSecret value confirmed => exact if_neg fun h => of_decide_eq_false hcall h.1
      | addSharedSecretBy value confirmedBy => exact if_neg (of_decide_eq_false hcall)
      | confirmPassive bloom pre pFalseDelta =>
          refine if_neg fun h => ?_
          rw [hbefore] at h
          exact Bool.false_ne_true h.1

/-! ## The invariant -/

/-- A secret is confirmed by the verdict, or its rate is the weight of its evidence. -/
structure Standing (sha256 : List Byte → Digest) (val : P → K) (threshold : P) (calls : List (SecretCall P))
    (s : SharedSecret P) : Prop where
  verdict : verdict sha256 val threshold calls s.value = if s.confirmed then some s.confirmedBy else none
  pending : s.confirmed = false → val s.pFalse = weight sha256 val calls s.value ∧ val threshold < val s.pFalse

/-- Each value that was added has one secret. -/
structure Weighed (sha256 : List Byte → Digest) (val : P → K) (threshold : P) (calls : List (SecretCall P))
    (d : EbNDevice P) : Prop where
  nodup : (values d.sharedSecrets).Nodup
  known : ∀ v, v ∈ values d.sharedSecrets ↔ (calls.any fun call => call.adds v) = true
  standing : ∀ s ∈ d.sharedSecrets, Standing sha256 val threshold calls s

theorem Standing.kept {s : SharedSecret P} (h : Standing sha256 val threshold calls s) (hconfirmed : s.confirmed = true)
    (call : SecretCall P) : Standing sha256 val threshold (calls ++ [call]) s := by
  refine ⟨?_, fun hnot => by rw [hconfirmed] at hnot; cases hnot⟩
  rw [verdict_concat, h.verdict, if_pos hconfirmed]
  rfl

theorem Standing.verdict_pending {s : SharedSecret P} (h : Standing sha256 val threshold calls s)
    (hpending : s.confirmed = false) (call : SecretCall P) :
    SecretCall.verdict sha256 val threshold (calls ++ [call]) s.value = call.confirms sha256 val threshold calls s.value := by
  rw [verdict_concat, h.verdict, hpending]
  rfl

variable [FloatOps P]

/-- A call that adds a secret neither lacks a value nor has a factor. -/
theorem Weighed.add {d : EbNDevice P} (h : Weighed sha256 val threshold calls d) (hexact : FloatOps.Exact val)
    (hthreshold : val threshold < 1) {call : SecretCall P} {secret : SharedSecret P}
    (hadds : ∀ v, call.adds v = decide (secret.value = v)) (hlacks : ∀ v, call.lacks sha256 v = false)
    (hfactor : call.factor = none)
    (hconfirms : ∀ v, call.confirms sha256 val threshold calls v
      = if secret.value = v ∧ secret.confirmed = true then some secret.confirmedBy else none)
    (hrate : secret.confirmed = false → secret.pFalse = FloatOps.one) :
    Weighed sha256 val threshold (calls ++ [call]) (d.addSharedSecret secret) := by
  have hknown : ∀ v, ((calls ++ [call]).any fun call => call.adds v) = ((calls.any fun call => call.adds v)
      || decide (secret.value = v)) := by
    intro v
    rw [List.any_append, List.any_cons, List.any_nil, Bool.or_false, hadds]
  refine ⟨?_, fun v => ?_, fun s hs => ?_⟩
  · rw [sharedSecrets_addSharedSecret]
    exact nodup_insertSecret h.nodup
  · rw [mem_addSharedSecret, hknown, Bool.or_eq_true, h.known, decide_eq_true_iff, eq_comm (a := v)]
  · rw [sharedSecrets_addSharedSecret] at hs
    obtain ⟨s₀, hs₀, hsame⟩ | ⟨rfl, hnew⟩ := mem_insertSecret h.nodup hs
    · have hold := h.standing s₀ hs₀
      cases hconfirmed : s₀.confirmed with
      | true =>
          rw [if_neg (by simp [hconfirmed])] at hsame
          rw [hsame]
          exact hold.kept hconfirmed call
      | false =>
          have hadded := (h.known s₀.value).mp (List.mem_map_of_mem hs₀)
          have hverdict := hold.verdict_pending hconfirmed call
          rw [hconfirms] at hverdict
          by_cases hnow : secret.value = s₀.value ∧ secret.confirmed = true
          · rw [if_pos ⟨hnow.1, hconfirmed, hnow.2⟩] at hsame
            rw [if_pos hnow] at hverdict
            rw [hsame]
            exact ⟨hverdict, fun hnot => by cases hnot⟩
          · rw [if_neg fun hall => hnow ⟨hall.1, hall.2.2⟩] at hsame
            rw [if_neg hnow] at hverdict
            rw [hsame]
            refine ⟨by rw [hverdict, hconfirmed]; rfl, fun _ => ?_⟩
            rw [weight, evidence_concat sha256 hadded, hlacks, hfactor]
            exact hold.pending hconfirmed
    · have hunknown : (calls.any fun call => call.adds s.value) = false := by
        rw [← Bool.not_eq_true, ← h.known]
        exact hnew
      refine ⟨?_, fun hpending => ?_⟩
      · rw [verdict_concat, verdict_unknown hunknown, Option.none_or, hconfirms]
        cases hconfirmed : s.confirmed <;> simp
      · rw [weight, evidence_unknown hunknown (by rw [hadds, decide_eq_true rfl]), hrate hpending, hexact.one]
        exact ⟨rfl, hthreshold⟩

section
variable {s : SharedSecret P} {bloom : BloomFilter P} {pre : List Byte} {pFalseDelta : P}

/-- A filter without the secret discards what the filters before it showed. -/
theorem Standing.missed (h : Standing sha256 val threshold calls s) (hexact : FloatOps.Exact val)
    (hthreshold : val threshold < 1) (hadded : (calls.any fun call => call.adds s.value) = true)
    (hconfirmed : s.confirmed = false) (hquery : bloom.query sha256 pre s.value = false) :
    Standing sha256 val threshold (calls ++ [.confirmPassive bloom pre pFalseDelta])
      (EbNDevice.confirmSecret sha256 bloom pre threshold pFalseDelta s).1 := by
  let call : SecretCall P := .confirmPassive bloom pre pFalseDelta
  obtain ⟨-, habove⟩ := h.pending hconfirmed
  have hnone : call.confirms sha256 val threshold calls s.value = none :=
    if_neg fun hall => by rw [hquery] at hall; exact Bool.false_ne_true hall.2.1
  have hresult : (EbNDevice.confirmSecret sha256 bloom pre threshold pFalseDelta s).1
      = { s with pFalse := FloatOps.one } := by
    simp [EbNDevice.confirmSecret, hconfirmed, hquery, (hexact.lt_iff _ _).mpr habove]
  rw [hresult]
  refine ⟨?_, fun _ => ?_⟩
  · rw [h.verdict_pending hconfirmed call, hnone, hconfirmed]
    rfl
  · rw [weight, evidence_concat sha256 hadded call, if_pos (by rw [lacks, hquery]; rfl), hexact.one]
    exact ⟨rfl, hthreshold⟩

/-- A filter with the secret adds to what the filters before it showed, and confirms it when that is enough. -/
theorem Standing.found (h : Standing sha256 val threshold calls s) (hexact : FloatOps.Exact val)
    (hadded : (calls.any fun call => call.adds s.value) = true) (hconfirmed : s.confirmed = false)
    (hquery : bloom.query sha256 pre s.value = true) :
    Standing sha256 val threshold (calls ++ [.confirmPassive bloom pre pFalseDelta])
      (EbNDevice.confirmSecret sha256 bloom pre threshold pFalseDelta s).1 := by
  let call : SecretCall P := .confirmPassive bloom pre pFalseDelta
  obtain ⟨hweight, habove⟩ := h.pending hconfirmed
  have hverdict := h.verdict_pending hconfirmed call
  have hproduct : val (FloatOps.mul s.pFalse pFalseDelta) = weight sha256 val (calls ++ [call]) s.value := by
    rw [weight, evidence_concat sha256 hadded call, if_neg (by rw [lacks, hquery]; exact Bool.false_ne_true), hexact.mul,
      hweight, mul_comm]
    rfl
  by_cases hbelow : weight sha256 val (calls ++ [call]) s.value ≤ val threshold
  · have hsome : call.confirms sha256 val threshold calls s.value = some .passive := if_pos ⟨hadded, hquery, hbelow⟩
    have hresult : (EbNDevice.confirmSecret sha256 bloom pre threshold pFalseDelta s).1
        = ({ s with pFalse := FloatOps.mul s.pFalse pFalseDelta } : SharedSecret P).confirm .passive := by
      rw [← hproduct] at hbelow
      simp [EbNDevice.confirmSecret, hconfirmed, hquery, (hexact.lt_iff _ _).mpr habove, (hexact.le_iff _ _).mpr hbelow]
    rw [hresult]
    exact ⟨hverdict.trans hsome, fun hnot => by cases hnot⟩
  · have hnone : call.confirms sha256 val threshold calls s.value = none := if_neg fun hall => hbelow hall.2.2
    have hresult : (EbNDevice.confirmSecret sha256 bloom pre threshold pFalseDelta s).1
        = { s with pFalse := FloatOps.mul s.pFalse pFalseDelta } := by
      rw [← hproduct, ← hexact.le_iff] at hbelow
      simp [EbNDevice.confirmSecret, hconfirmed, hquery, (hexact.lt_iff _ _).mpr habove, hbelow]
    rw [hresult]
    refine ⟨?_, fun _ => ⟨hproduct, ?_⟩⟩
    · rw [hverdict, hnone, hconfirmed]
      rfl
    · rw [hproduct]
      exact not_le.mp hbelow

end

theorem Weighed.confirmPassive {d : EbNDevice P} (h : Weighed sha256 val threshold calls d) (hexact : FloatOps.Exact val)
    (hthreshold : val threshold < 1) (bloom : BloomFilter P) (pre : List Byte) (pFalseDelta : P) :
    Weighed sha256 val threshold (calls ++ [.confirmPassive bloom pre pFalseDelta])
      (d.confirmPassiveDelta sha256 bloom pre threshold pFalseDelta) := by
  refine ⟨?_, fun v => ?_, fun s hs => ?_⟩
  · rw [values_confirmPassiveDelta]
    exact h.nodup
  · rw [values_confirmPassiveDelta, h.known, List.any_append, List.any_cons, List.any_nil]
    simp [SecretCall.adds]
  · rw [EbNDevice.confirmPassiveDelta, List.map_map] at hs
    obtain ⟨s₀, hs₀, rfl⟩ := List.mem_map.mp hs
    have hold := h.standing s₀ hs₀
    have hadded := (h.known s₀.value).mp (List.mem_map_of_mem hs₀)
    cases hconfirmed : s₀.confirmed with
    | true =>
        rw [Function.comp_apply, EbNDevice.confirmSecret, hconfirmed]
        exact hold.kept hconfirmed _
    | false =>
        cases hquery : bloom.query sha256 pre s₀.value with
        | false => exact hold.missed hexact hthreshold hadded hconfirmed hquery
        | true => exact hold.found hexact hadded hconfirmed hquery

theorem Weighed.apply {d : EbNDevice P} (h : Weighed sha256 val threshold calls d) (hexact : FloatOps.Exact val)
    (hthreshold : val threshold < 1) (call : SecretCall P) :
    Weighed sha256 val threshold (calls ++ [call]) (call.apply sha256 threshold d) := by
  cases call with
  | addSharedSecret value confirmed =>
      refine h.add hexact hthreshold (fun _ => rfl) (fun _ => rfl) rfl (fun _ => rfl) fun hpending => ?_
      change confirmed = false at hpending
      rw [hpending]
      rfl
  | addSharedSecretBy value confirmedBy =>
      refine h.add hexact hthreshold (fun _ => rfl) (fun _ => rfl) rfl (fun v => ?_) fun hpending => by cases hpending
      simp [SecretCall.confirms, SharedSecret.ofScheme]
  | confirmPassive bloom pre pFalseDelta => exact h.confirmPassive hexact hthreshold bloom pre pFalseDelta

theorem Weighed.run (hexact : FloatOps.Exact val) (hthreshold : val threshold < 1) (id : DeviceID) (address : Address)
    (listenSet : List LinkValue) (calls : List (SecretCall P)) :
    Weighed sha256 val threshold calls (calls.foldl (SecretCall.apply sha256 threshold) (.new id address listenSet)) := by
  induction calls using List.reverseRecOn with
  | nil => exact ⟨List.nodup_nil, fun v => by simp [EbNDevice.new], fun s hs => by cases hs⟩
  | append_singleton calls call ih =>
      rw [List.foldl_append]
      exact ih.apply hexact hthreshold call

end

end Sddr.Device
