import Sddr.Device.Lemmas.EbNDeviceBT4AR
import Sddr.Device.Lemmas.Evidence
import Sddr.Device.Lemmas.Reports

/-! # Main results about devices -/

namespace Sddr.Device
open Sddr.Lib Sddr.Codec

variable {P : Type} [FloatOps P] (sha256 : List Byte → Digest)

/-- A device never holds a secret twice, reports every confirmed secret and every measurement exactly once, keeps
its client's matching set current, and starts with a `Started` event that carries a secret. -/
theorem Reports.exactly_once (id : DeviceID) (address : Address) (listenSet : List LinkValue)
    (ops : List (ReportOp P)) :
    let r := Reports.run sha256 id address listenSet ops
    (r.device.sharedSecrets.map SharedSecret.value).Nodup ∧
    ((r.reportedSecrets.map SharedSecret.value).Nodup ∧
      ∀ v, v ∈ r.reportedSecrets.map SharedSecret.value ↔
        ∃ s ∈ r.device.sharedSecrets, s.confirmed = true ∧ s.value = v) ∧
    r.reportedRSSI = ops.flatMap ReportOp.measurement ∧
    (∀ time rssiReportingInterval now later : Time,
      (r.device.getEncounterInfo (EncounterEvent.ofTime time) rssiReportingInterval false now later).1 = true →
      let r' := Reports.run sha256 id address listenSet
        (ops ++ [.getEncounterInfo time rssiReportingInterval now later])
      r'.clientMatching listenSet = r'.device.matching) ∧
    (∀ e ∈ r.events.head?, e.type = .Started ∧ e.sharedSecrets ≠ []) ∧
    ∀ e ∈ r.events.tail, e.type = .Updated := by
  intro r
  have hinv : r.Inv listenSet := Reports.Inv.run id address listenSet ops
  refine ⟨hinv.nodup, ⟨?_, fun v => ?_⟩, ?_, ?_, hinv.types.first, hinv.types.later⟩
  · exact hinv.secrets.nodup_iff.mpr (hinv.nodup.sublist (confirmedValues_sublist _))
  · exact hinv.secrets.mem_iff.trans mem_confirmedValues
  · exact Reports.foldl_step_rssi ops _
  · intro time rssiReportingInterval now later hsuccess r'
    have hinv' : r'.Inv listenSet := Reports.Inv.run id address listenSet _
    have hstep : r' = r.step sha256 (.getEncounterInfo time rssiReportingInterval now later) := by
      simp [r', r, Reports.run]
    refine hinv'.client ?_
    cases hupdated : r.device.isUpdated rssiReportingInterval now with
    | false => simp [EbNDevice.getEncounterInfo, hupdated] at hsuccess
    | true => rw [hstep, Reports.step_success hupdated]

/-- A secret is confirmed by the first call that adds it as confirmed, or whose filter makes its evidence outweigh the
threshold, and then stays so. -/
theorem EbNDevice.confirmed_byEvidence {K : Type} [LinearOrder K] [CommMonoid K] (val : P → K)
    (hexact : FloatOps.Exact val) (threshold : P) (hthreshold : val threshold < 1) (id : DeviceID) (address : Address)
    (listenSet : List LinkValue) (calls more : List (SecretCall P)) :
    let run := List.foldl (SecretCall.apply sha256 threshold) (EbNDevice.new id address listenSet)
    let d := run calls
    (d.sharedSecrets.map SharedSecret.value).Nodup ∧
    (∀ v, v ∈ d.sharedSecrets.map SharedSecret.value ↔ ∃ call ∈ calls, call.adds v = true) ∧
    (∀ s ∈ d.sharedSecrets,
      SecretCall.verdict sha256 val threshold calls s.value = if s.confirmed then some s.confirmedBy else none) ∧
    ∀ s ∈ d.sharedSecrets, s.confirmed = true → ∃ s' ∈ (run (calls ++ more)).sharedSecrets,
      s'.value = s.value ∧ s'.confirmed = true ∧ s'.confirmedBy = s.confirmedBy := by
  intro run d
  have hd : Weighed sha256 val threshold calls d := .run hexact hthreshold id address listenSet calls
  have hrun : Weighed sha256 val threshold (calls ++ more) (run (calls ++ more)) :=
    .run hexact hthreshold id address listenSet (calls ++ more)
  refine ⟨hd.nodup, fun v => (hd.known v).trans List.any_eq_true, fun s hs => (hd.standing s hs).verdict,
    fun s hs hconfirmed => ?_⟩
  have hverdict := (hd.standing s hs).verdict
  rw [if_pos hconfirmed] at hverdict
  have hadded : ((calls ++ more).any fun call => call.adds s.value) = true := by
    rw [List.any_append, (hd.known s.value).mp (List.mem_map_of_mem hs), Bool.true_or]
  obtain ⟨s', hs', hvalue⟩ := List.mem_map.mp ((hrun.known s.value).mpr hadded)
  have hlater := (hrun.standing s' hs').verdict
  rw [hvalue, SecretCall.verdict, verdictFrom_append, ← SecretCall.verdict, hverdict, Option.some_or] at hlater
  cases hconfirmed' : s'.confirmed with
  | false => simp [hconfirmed'] at hlater
  | true =>
      rw [hconfirmed', if_pos rfl] at hlater
      exact ⟨s', hs', hvalue, hconfirmed', (Option.some.inj hlater).symm⟩

/-- A secret that two filters with rate one half hold meets a threshold of one quarter. -/
theorem EbNDevice.confirmed_byEvidence_two :
    let bloom : BloomFilter LogRate := BloomFilter.ofBytes 1 8 1 fun _ => 0xFF
    let calls : List (SecretCall LogRate) := [.addSharedSecret [7] false, .confirmPassive bloom [] (some 1)]
    let more : List (SecretCall LogRate) := [.confirmPassive bloom [] (some 1), .addSharedSecretBy [7] .active]
    let run := List.foldl (SecretCall.apply (fun _ => 0) (some 2)) (EbNDevice.new 0 [] [])
    let d := run calls
    (d.sharedSecrets.map SharedSecret.value).Nodup ∧
    (∀ v, v ∈ d.sharedSecrets.map SharedSecret.value ↔ ∃ call ∈ calls, call.adds v = true) ∧
    (∀ s ∈ d.sharedSecrets,
      SecretCall.verdict (fun _ => 0) LogRate.val (some 2) calls s.value
        = if s.confirmed then some s.confirmedBy else none) ∧
    ∀ s ∈ d.sharedSecrets, s.confirmed = true → ∃ s' ∈ (run (calls ++ more)).sharedSecrets,
      s'.value = s.value ∧ s'.confirmed = true ∧ s'.confirmedBy = s.confirmedBy :=
  EbNDevice.confirmed_byEvidence (fun _ => 0) LogRate.val LogRate.exact (some 2) (by norm_num [LogRate.val]) 0 [] [] _ _

/-- Resolving an address leaves the link values that yield it, and never leaves the list, if and only if every other one
is directly followed by one of them. -/
theorem EbNDeviceBT4AR.updateMatching_iff (aes : List Byte → List Byte → List Byte) (addressPFalse : P)
    (d : EbNDevice P) :
    let keep := EbNDeviceBT4AR.resolves aes d.address
    (∃ d', updateMatching aes addressPFalse d = some (d'.updatedMatching, d') ∧ d'.matching = d.matching.filter keep ∧
        d'.updatedMatching = (d.updatedMatching || d.matching.any fun value => !keep value)) ↔
      Spaced keep d.matching := by
  intro keep
  rw [← eraseUnless_filter_iff]
  constructor
  · rintro ⟨d', h, hmatching, -⟩
    obtain ⟨⟨rest, erased⟩, hrest, heq⟩ := Option.map_eq_some_iff.mp h
    obtain ⟨-, rfl⟩ := Prod.mk.inj heq
    exact ⟨erased, by rw [hrest, ← hmatching]⟩
  · rintro ⟨erased, h⟩
    refine ⟨_, by rw [updateMatching, h]; rfl, rfl, ?_⟩
    rw [← eraseUnless_erased h]

/-- Of two link values that do not yield an address the second is left, and the only one of a list leads past its end. -/
theorem EbNDeviceBT4AR.updateMatching_fails :
    let d := EbNDevice.new 0 [1, 2, 3, 4, 5, 6]
    let aes : List Byte → List Byte → List Byte := fun _ _ => List.replicate 16 0
    (updateMatching aes none (d [[7], [8]] : EbNDevice LogRate)).map (fun r => r.2.matching) = some [[8]] ∧
      (updateMatching aes none (d [[7]] : EbNDevice LogRate)).isNone := by
  decide

end Sddr.Device
