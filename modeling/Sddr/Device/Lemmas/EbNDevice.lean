import Mathlib.Data.List.Perm.Basic
import Sddr.Device.Reports

/-!
# What the operations do to the secrets of a device

Every route that confirms a secret also queues it for the next report. `Confirms` says so in one relation, which
every operation of a device satisfies.
-/

namespace Sddr.Device
open Sddr.Lib Sddr.Codec EbNDevice

variable {P : Type}

abbrev values (secrets : List (SharedSecret P)) : List LinkValue := secrets.map SharedSecret.value

theorem confirmedValues_cons (s : SharedSecret P) (l : List (SharedSecret P)) :
    confirmedValues (s :: l) = (if s.confirmed then [s.value] else []) ++ confirmedValues l := by
  cases h : s.confirmed <;> simp [confirmedValues, h]

theorem mem_confirmedValues {l : List (SharedSecret P)} {v : LinkValue} :
    v ∈ confirmedValues l ↔ ∃ s ∈ l, s.confirmed = true ∧ s.value = v := by
  simp [confirmedValues, and_assoc]

theorem confirmedValues_sublist (l : List (SharedSecret P)) : (confirmedValues l).Sublist (values l) :=
  List.filter_sublist.map _

/-- `d'` is `d` with the secrets of the values `new` confirmed and queued for the next report. -/
structure Confirms (d d' : EbNDevice P) (new : List LinkValue) : Prop where
  nodup : (values d.sharedSecrets).Nodup → (values d'.sharedSecrets).Nodup
  confirmedValues : (confirmedValues d'.sharedSecrets).Perm (confirmedValues d.sharedSecrets ++ new)
  toReport : values d'.secretsToReport = values d.secretsToReport ++ new
  confirmed : d'.confirmed = (d.confirmed || !new.isEmpty)
  reported : d'.reported = d.reported

/-- An operation that leaves the secrets alone confirms none. -/
theorem Confirms.of_eq {d d' : EbNDevice P} (hsecrets : d'.sharedSecrets = d.sharedSecrets)
    (hreport : d'.secretsToReport = d.secretsToReport) (hconfirmed : d'.confirmed = d.confirmed)
    (hreported : d'.reported = d.reported) : Confirms d d' [] where
  nodup := by rw [hsecrets]; exact id
  confirmedValues := by rw [hsecrets, List.append_nil]
  toReport := by rw [hreport, List.append_nil]
  confirmed := by rw [hconfirmed]; simp
  reported := hreported

/-! ## addSharedSecret -/

theorem values_insertSecret (secret : SharedSecret P) (l : List (SharedSecret P)) :
    values (insertSecret secret l).1
      = if secret.value ∈ values l then values l else values l ++ [secret.value] := by
  induction l with
  | nil => rfl
  | cons it rest ih =>
      by_cases heq : secret.value = it.value
      · cases hnew : !it.confirmed && secret.confirmed <;> simp [insertSecret, heq, hnew, SharedSecret.confirm]
      · rw [insertSecret, if_neg heq]
        simp only [values, List.map_cons, List.mem_cons, heq, false_or] at ih ⊢
        rw [ih]
        split_ifs <;> rfl

theorem nodup_insertSecret {secret : SharedSecret P} {l : List (SharedSecret P)} (h : (values l).Nodup) :
    (values (insertSecret secret l).1).Nodup := by
  rw [values_insertSecret]
  split_ifs with hmem
  · exact h
  · exact List.nodup_append.mpr ⟨h, List.pairwise_singleton _ _, by
      rintro v hv w hw rfl
      exact hmem (List.mem_singleton.mp hw ▸ hv)⟩

theorem confirmedValues_insertSecret (secret : SharedSecret P) (l : List (SharedSecret P)) :
    (confirmedValues (insertSecret secret l).1).Perm
      (confirmedValues l ++ if (insertSecret secret l).2 then [secret.value] else []) := by
  induction l with
  | nil => cases hnew : secret.confirmed <;> simp [insertSecret, confirmedValues, hnew]
  | cons it rest ih =>
      by_cases heq : secret.value = it.value
      · cases hold : it.confirmed <;> cases hnew : secret.confirmed <;>
          simp [insertSecret, heq, hold, hnew, SharedSecret.confirm, confirmedValues_cons]
        exact (List.perm_append_singleton it.value (confirmedValues rest)).symm
      · simp only [insertSecret, if_neg heq, confirmedValues_cons, List.append_assoc]
        exact ih.append_left _

theorem addSharedSecret_confirms (d : EbNDevice P) (secret : SharedSecret P) :
    ∃ new, Confirms d (d.addSharedSecret secret) new := by
  have hperm := confirmedValues_insertSecret secret d.sharedSecrets
  cases hnew : (insertSecret secret d.sharedSecrets).2 with
  | false =>
      refine ⟨[], ?_⟩
      rw [hnew] at hperm
      exact ⟨by simpa [EbNDevice.addSharedSecret, hnew] using nodup_insertSecret,
        by simpa [EbNDevice.addSharedSecret, hnew] using hperm,
        by simp [EbNDevice.addSharedSecret, hnew], by simp [EbNDevice.addSharedSecret, hnew],
        by simp [EbNDevice.addSharedSecret, hnew]⟩
  | true =>
      refine ⟨[secret.value], ?_⟩
      rw [hnew] at hperm
      exact ⟨by simpa [EbNDevice.addSharedSecret, hnew] using nodup_insertSecret,
        by simpa [EbNDevice.addSharedSecret, hnew] using hperm,
        by simp [EbNDevice.addSharedSecret, hnew], by simp [EbNDevice.addSharedSecret, hnew],
        by simp [EbNDevice.addSharedSecret, hnew]⟩

theorem mem_addSharedSecret {d : EbNDevice P} {s : SharedSecret P} {v : LinkValue} :
    v ∈ values (d.addSharedSecret s).sharedSecrets ↔ v ∈ values d.sharedSecrets ∨ v = s.value := by
  have hvalues : values (d.addSharedSecret s).sharedSecrets
      = if s.value ∈ values d.sharedSecrets then values d.sharedSecrets else values d.sharedSecrets ++ [s.value] := by
    rw [← values_insertSecret, EbNDevice.addSharedSecret]
    split_ifs <;> rfl
  rw [hvalues]
  split_ifs with hmem
  · exact ⟨Or.inl, fun h => h.elim id fun heq => heq ▸ hmem⟩
  · rw [List.mem_append, List.mem_singleton]

/-! ## confirmPassive -/

section
variable [FloatOps P] (sha256 : List Byte → Digest) (bloom : BloomFilter P) (pre : List Byte)
  (threshold pFalseDelta : P)

theorem confirmSecret_value (s : SharedSecret P) :
    (confirmSecret sha256 bloom pre threshold pFalseDelta s).1.value = s.value := by
  unfold confirmSecret
  dsimp only
  split_ifs <;> rfl

theorem values_confirmPassiveDelta (d : EbNDevice P) :
    values (d.confirmPassiveDelta sha256 bloom pre threshold pFalseDelta).sharedSecrets = values d.sharedSecrets := by
  unfold EbNDevice.confirmPassiveDelta values
  simp only [List.map_map]
  exact List.map_congr_left fun s _ => confirmSecret_value sha256 bloom pre threshold pFalseDelta s

/-- A secret becomes confirmed exactly when the loop body queues it, and then it was not before. -/
theorem confirmSecret_confirmed (s : SharedSecret P) :
    let result := confirmSecret sha256 bloom pre threshold pFalseDelta s
    result.1.confirmed = (s.confirmed || result.2) ∧ (result.2 = true → s.confirmed = false) := by
  unfold confirmSecret
  dsimp only
  split_ifs with hpending <;> simp_all [SharedSecret.confirm]

theorem confirmPassiveDelta_confirms (d : EbNDevice P) :
    ∃ new, Confirms d (d.confirmPassiveDelta sha256 bloom pre threshold pFalseDelta) new := by
  let f := confirmSecret sha256 bloom pre threshold pFalseDelta
  have hconfirmed : ∀ l : List (SharedSecret P), (confirmedValues ((l.map f).map Prod.fst)).Perm
      (confirmedValues l ++ values (((l.map f).filter Prod.snd).map Prod.fst)) := by
    intro l
    induction l with
    | nil => exact List.Perm.refl _
    | cons s l ih =>
        obtain ⟨hflag, hfresh⟩ := confirmSecret_confirmed sha256 bloom pre threshold pFalseDelta s
        have hvalue : (f s).1.value = s.value := confirmSecret_value sha256 bloom pre threshold pFalseDelta s
        change (f s).1.confirmed = (s.confirmed || (f s).2) at hflag
        change (f s).2 = true → s.confirmed = false at hfresh
        cases hnew : (f s).2 with
        | false =>
            simp only [List.map_cons, confirmedValues_cons, hflag, hnew, Bool.or_false, hvalue,
              List.filter_cons_of_neg, Bool.false_eq_true, not_false_eq_true, List.append_assoc]
            exact ih.append_left _
        | true =>
            simp only [List.map_cons, confirmedValues_cons, hflag, hnew, hfresh hnew, Bool.false_or, if_true, hvalue,
              List.filter_cons_of_pos, values, Bool.false_eq_true, if_false, List.nil_append]
            exact (ih.cons s.value).trans List.perm_middle.symm
  refine ⟨values (((d.sharedSecrets.map f).filter Prod.snd).map Prod.fst), ?_, hconfirmed _, ?_, ?_, rfl⟩
  · intro h
    rw [values_confirmPassiveDelta]
    exact h
  · simp [EbNDevice.confirmPassiveDelta, f]
  · have hany : ∀ l : List (SharedSecret P × Bool),
        l.any Prod.snd = !(values ((l.filter Prod.snd).map Prod.fst)).isEmpty := by
      intro l
      induction l with
      | nil => rfl
      | cons r l ih => cases hr : r.2 <;> simp_all
    simp only [EbNDevice.confirmPassiveDelta, hany]
    rfl

end

end Sddr.Device
