import Mathlib.Data.List.Nodup
import Sddr.Device.Lemmas.Evidence
import Sddr.Device.Lemmas.Reports

/-!
# What is owed to a client

A confirmed secret has been delivered or is still to be reported.
-/

namespace Sddr.Device
open Sddr.Lib Sddr.Codec

variable {P : Type} {d d' : EbNDevice P} {delivered : List LinkValue}

/-- The secrets that were delivered and those that are to be reported are the confirmed ones, once each. -/
structure Accounts (d : EbNDevice P) (delivered : List LinkValue) : Prop where
  nodup : (values d.sharedSecrets).Nodup
  secrets : (delivered ++ values d.secretsToReport).Perm (confirmedValues d.sharedSecrets)
  confirmed : d.confirmed = true ↔ confirmedValues d.sharedSecrets ≠ []

namespace Accounts

theorem new [FloatOps P] (id : DeviceID) (address : Address) (listenSet : List LinkValue) :
    Accounts (EbNDevice.new id address listenSet : EbNDevice P) [] :=
  ⟨List.nodup_nil, .refl _, by simp [EbNDevice.new, confirmedValues]⟩

theorem ripens (h : Accounts d delivered) (hripens : Ripens d d') : Accounts d' delivered := by
  obtain ⟨new, hnew⟩ := hripens
  refine ⟨hnew.nodup h.nodup, ?_, ?_⟩
  · calc delivered ++ values d'.secretsToReport
        = (delivered ++ values d.secretsToReport) ++ new := by rw [hnew.toReport, List.append_assoc]
      List.Perm _ (confirmedValues d.sharedSecrets ++ new) := h.secrets.append_right new
      List.Perm _ (confirmedValues d'.sharedSecrets) := hnew.confirmedValues.symm
  · rw [hnew.confirmed, Bool.or_eq_true, h.confirmed, ne_eq, ne_eq, ← List.length_eq_zero_iff, ← List.length_eq_zero_iff,
      hnew.confirmedValues.length_eq, List.length_append]
    cases new with
    | nil => simp
    | cons v new => simp

theorem nodup_confirmed (h : Accounts d delivered) : (confirmedValues d.sharedSecrets).Nodup :=
  h.nodup.sublist (confirmedValues_sublist _)

theorem nodup_delivered (h : Accounts d delivered) : delivered.Nodup :=
  (List.nodup_append.mp (h.secrets.nodup_iff.mpr h.nodup_confirmed)).1

theorem confirmed_of_pending (h : Accounts d delivered) (hpending : d.secretsToReport ≠ []) : d.confirmed = true := by
  refine h.confirmed.mpr fun hnone => hpending ?_
  have hempty := h.secrets
  rw [hnone, List.perm_nil, List.append_eq_nil_iff] at hempty
  exact List.map_eq_nil_iff.mp hempty.2

/-- Each confirmed secret was delivered once just if none is left to be reported. -/
theorem delivered_iff (h : Accounts d delivered) :
    (∀ v ∈ confirmedValues d.sharedSecrets, delivered.count v = 1) ↔ d.secretsToReport = [] := by
  constructor
  · intro honce
    by_contra hpending
    obtain ⟨secret, hsecret⟩ := List.exists_mem_of_ne_nil _ hpending
    have hvalue : secret.value ∈ values d.secretsToReport := List.mem_map_of_mem hsecret
    have hconfirmed : secret.value ∈ confirmedValues d.sharedSecrets :=
      h.secrets.mem_iff.mp (List.mem_append_right _ hvalue)
    have htwice : (delivered ++ values d.secretsToReport).count secret.value ≥ 2 := by
      rw [List.count_append, honce _ hconfirmed]
      exact Nat.add_le_add_left (List.count_pos_iff.mpr hvalue) 1
    have hatMost := List.nodup_iff_count_le_one.mp (h.secrets.nodup_iff.mpr h.nodup_confirmed) secret.value
    omega
  · intro hnone v hv
    have hperm := h.secrets
    rw [hnone, values, List.map_nil, List.append_nil] at hperm
    exact List.count_eq_one_of_mem h.nodup_delivered (hperm.mem_iff.mpr hv)

/-- A report delivers what was to be reported. -/
theorem report (h : Accounts d delivered) {time rssiReportingInterval now later : Time} :
    let report := d.getEncounterInfo (EncounterEvent.ofTime time) rssiReportingInterval false now later
    report.1 = true → Accounts report.2.2 (delivered ++ values report.2.1.sharedSecrets) := by
  intro report hsuccess
  obtain ⟨-, -, hdelivered, -, -, hsecrets, hnone⟩ := getEncounterInfo_success hsuccess
  obtain ⟨-, hflag, -⟩ := getEncounterInfo_keeps d (EncounterEvent.ofTime time) rssiReportingInterval false now later
  refine ⟨?_, ?_, ?_⟩
  · rw [hsecrets]
    exact h.nodup
  · rw [hdelivered, hnone, hsecrets, values, values, List.map_nil, List.append_nil]
    exact h.secrets
  · rw [hflag, hsecrets]
    exact h.confirmed

end Accounts

/-! ## Confirming with a message -/

/-- A confirmed secret that is added is a confirmed one of the device. -/
theorem mem_confirmedValues_addSharedSecret (d : EbNDevice P) {secret : SharedSecret P} (hsecret : secret.confirmed = true) :
    secret.value ∈ confirmedValues (d.addSharedSecret secret).sharedSecrets := by
  rw [sharedSecrets_addSharedSecret]
  induction d.sharedSecrets with
  | nil => simp [EbNDevice.insertSecret, confirmedValues, hsecret]
  | cons it rest ih =>
      rw [EbNDevice.insertSecret]
      split_ifs with heq hnew
      · simp [confirmedValues_cons, SharedSecret.confirm, heq]
      · have hold : it.confirmed = true := by simpa [hsecret] using hnew
        simp [confirmedValues_cons, hold, heq]
      · rw [confirmedValues_cons]
        exact List.mem_append_right _ ih

/-- Nothing happens when it was confirmed before. -/
theorem addSharedSecret_confirmed {d : EbNDevice P} {secret : SharedSecret P} (hnodup : (values d.sharedSecrets).Nodup)
    (hmem : secret.value ∈ confirmedValues d.sharedSecrets) : d.addSharedSecret secret = d := by
  have hsame : EbNDevice.insertSecret secret d.sharedSecrets = (d.sharedSecrets, false) := by
    generalize d.sharedSecrets = l at hnodup hmem
    induction l with
    | nil => cases hmem
    | cons it rest ih =>
        obtain ⟨hnot, hrest⟩ := List.nodup_cons.mp hnodup
        rw [confirmedValues_cons, List.mem_append] at hmem
        rw [EbNDevice.insertSecret]
        split_ifs with heq hnew
        · rw [Bool.and_eq_true, Bool.not_eq_true'] at hnew
          rw [hnew.1] at hmem
          refine absurd ((confirmedValues_sublist rest).subset (hmem.resolve_left (by simp))) ?_
          rw [heq]
          exact hnot
        · rfl
        · have hlater : secret.value ∈ confirmedValues rest := by
            refine hmem.resolve_left fun hin => ?_
            split at hin
            · exact heq (List.mem_singleton.mp hin)
            · cases hin
          rw [ih hrest hlater]
  rw [EbNDevice.addSharedSecret, hsame]
  rfl

end Sddr.Device
