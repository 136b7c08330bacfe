import Sddr.Device.Lemmas.EbNDevice

/-!
# The invariant of a reported device

Ties the queues and flags of a device to the events it has delivered.
-/

namespace Sddr.Device
open Sddr.Lib Sddr.Codec

variable {P : Type}

theorem addSharedSecret_matching (d : EbNDevice P) (secret : SharedSecret P) :
    (d.addSharedSecret secret).matching = d.matching ∧
      (d.addSharedSecret secret).updatedMatching = d.updatedMatching ∧
      (d.addSharedSecret secret).rssiToReport = d.rssiToReport := by
  unfold EbNDevice.addSharedSecret
  dsimp only
  split_ifs <;> exact ⟨rfl, rfl, rfl⟩

/-- The first event is `Started` and carries a secret, every later one is `Updated`. -/
structure StartedThenUpdated (events : List (EncounterEvent P)) : Prop where
  first : ∀ e ∈ events.head?, e.type = .Started ∧ e.sharedSecrets ≠ []
  later : ∀ e ∈ events.tail, e.type = .Updated

theorem StartedThenUpdated.append {events : List (EncounterEvent P)} (h : StartedThenUpdated events)
    (hne : events ≠ []) {e : EncounterEvent P} (he : e.type = .Updated) : StartedThenUpdated (events ++ [e]) := by
  cases events with
  | nil => exact absurd rfl hne
  | cons e₀ events =>
      refine ⟨h.first, fun e' he' => ?_⟩
      rcases List.mem_append.mp he' with hold | hnew
      · exact h.later e' hold
      · rw [List.mem_singleton.mp hnew]; exact he

variable [FloatOps P] {sha256 : List Byte → Digest}

/-! ## What one operation changes -/

theorem DeviceOp.apply_confirms (sha256 : List Byte → Digest) (op : DeviceOp P) (d : EbNDevice P) :
    ∃ new, Confirms d (op.apply sha256 d) new := by
  cases op with
  | addSharedSecret secret => exact addSharedSecret_confirms d secret
  | confirmPassive bloom pre threshold => exact confirmPassiveDelta_confirms sha256 bloom pre threshold _ d
  | confirmPassiveDelta bloom pre threshold pFalseDelta =>
      exact confirmPassiveDelta_confirms sha256 bloom pre threshold pFalseDelta d
  | updateMatching | updateMatchingDelta | addRSSIMeasurement | setShakenHands =>
      exact ⟨[], Confirms.of_eq rfl rfl rfl rfl⟩

/-- No call forgets a secret, and none touches id, address or the reported flag. -/
theorem DeviceOp.apply_keeps (sha256 : List Byte → Digest) (op : DeviceOp P) (d : EbNDevice P) :
    (∀ v ∈ values d.sharedSecrets, v ∈ values (op.apply sha256 d).sharedSecrets) ∧ (op.apply sha256 d).id = d.id ∧
      (op.apply sha256 d).address = d.address ∧ (op.apply sha256 d).reported = d.reported := by
  cases op with
  | addSharedSecret secret =>
      refine ⟨fun v hv => mem_addSharedSecret.mpr (Or.inl hv), ?_⟩
      unfold DeviceOp.apply EbNDevice.addSharedSecret
      dsimp only
      split_ifs <;> exact ⟨rfl, rfl, rfl⟩
  | confirmPassive bloom pre threshold =>
      refine ⟨fun v hv => ?_, rfl, rfl, rfl⟩
      rw [DeviceOp.apply, EbNDevice.confirmPassive, values_confirmPassiveDelta]
      exact hv
  | confirmPassiveDelta bloom pre threshold pFalseDelta =>
      refine ⟨fun v hv => ?_, rfl, rfl, rfl⟩
      rw [DeviceOp.apply, values_confirmPassiveDelta]
      exact hv
  | updateMatching | updateMatchingDelta | addRSSIMeasurement | setShakenHands =>
      exact ⟨fun v hv => hv, rfl, rfl, rfl⟩

namespace Changed

variable {d d' d'' : EbNDevice P}

theorem refl (d : EbNDevice P) : Changed sha256 d d := ⟨[], rfl⟩

theorem op (op : DeviceOp P) (d : EbNDevice P) : Changed sha256 d (op.apply sha256 d) := ⟨[op], rfl⟩

theorem trans (h : Changed sha256 d d') (h' : Changed sha256 d' d'') : Changed sha256 d d'' := by
  obtain ⟨ops, rfl⟩ := h
  obtain ⟨ops', rfl⟩ := h'
  exact ⟨ops ++ ops', List.foldl_append⟩

theorem keeps (h : Changed sha256 d d') : (∀ v ∈ values d.sharedSecrets, v ∈ values d'.sharedSecrets) ∧
    d'.id = d.id ∧ d'.address = d.address ∧ d'.reported = d.reported := by
  obtain ⟨ops, rfl⟩ := h
  induction ops generalizing d with
  | nil => exact ⟨fun _ hv => hv, rfl, rfl, rfl⟩
  | cons op ops ih =>
      obtain ⟨hvalues, hid, haddress, hreported⟩ := op.apply_keeps sha256 d
      obtain ⟨hvalues', hid', haddress', hreported'⟩ := ih (d := op.apply sha256 d)
      exact ⟨fun v hv => hvalues' v (hvalues v hv), hid'.trans hid, haddress'.trans haddress,
        hreported'.trans hreported⟩

end Changed

/-- Secrets may be confirmed and queued, and nothing is reported. -/
def Ripens (d d' : EbNDevice P) : Prop := ∃ new, Confirms d d' new

namespace Ripens

variable {d d' d'' : EbNDevice P}

omit [FloatOps P] in
theorem refl (d : EbNDevice P) : Ripens d d := ⟨[], .of_eq rfl rfl rfl rfl⟩

omit [FloatOps P] in
theorem trans (h : Ripens d d') (h' : Ripens d' d'') : Ripens d d'' := by
  obtain ⟨new, hnew⟩ := h
  obtain ⟨new', hnew'⟩ := h'
  refine ⟨new ++ new', fun hnodup => hnew'.nodup (hnew.nodup hnodup), ?_, ?_, ?_, hnew'.reported.trans hnew.reported⟩
  · rw [← List.append_assoc]
    exact hnew'.confirmedValues.trans (hnew.confirmedValues.append_right new')
  · rw [hnew'.toReport, hnew.toReport, List.append_assoc]
  · rw [hnew'.confirmed, hnew.confirmed]
    cases new <;> simp

theorem of_changed (h : Changed sha256 d d') : Ripens d d' := by
  obtain ⟨ops, rfl⟩ := h
  induction ops generalizing d with
  | nil => exact refl d
  | cons op ops ih => exact trans (op.apply_confirms sha256 d) ih

end Ripens

omit [FloatOps P] in
/-- A report that succeeds delivers the secrets that were to be reported. -/
theorem getEncounterInfo_success {d : EbNDevice P} {time rssiReportingInterval now later : Time}
    (h : (d.getEncounterInfo (EncounterEvent.ofTime time) rssiReportingInterval false now later).1 = true) :
    let report := d.getEncounterInfo (EncounterEvent.ofTime time) rssiReportingInterval false now later
    report.2.1.id = d.id ∧ report.2.1.type = (if d.reported then .Updated else .Started) ∧
      report.2.1.sharedSecrets = d.secretsToReport ∧ report.2.2.id = d.id ∧ report.2.2.reported = true ∧
      report.2.2.sharedSecrets = d.sharedSecrets ∧ report.2.2.secretsToReport = [] := by
  cases hupdated : d.isUpdated rssiReportingInterval now with
  | false => simp [EbNDevice.getEncounterInfo, hupdated] at h
  | true =>
      cases hsecrets : d.secretsToReport <;>
        simp [EbNDevice.getEncounterInfo, hupdated, EncounterEvent.ofTime, EncounterEvent.new, hsecrets]

omit [FloatOps P] in
theorem getEncounterInfo_keeps (d : EbNDevice P) (dest : EncounterEvent P) (rssiReportingInterval : Time) (expired : Bool)
    (now later : Time) :
    let report := d.getEncounterInfo dest rssiReportingInterval expired now later
    report.2.2.shakenHands = d.shakenHands ∧ report.2.2.confirmed = d.confirmed ∧
      report.2.2.sharedSecrets = d.sharedSecrets := by
  unfold EbNDevice.getEncounterInfo
  dsimp only
  split_ifs <;> exact ⟨rfl, rfl, rfl⟩

/-- A filter that marks nothing as updated removes nothing. -/
theorem updateMatchingDelta_unchanged {d : EbNDevice P} {bloom : BloomFilter P} {pre : List Byte} {pFalseDelta : P}
    (h : (d.updateMatchingDelta sha256 bloom pre pFalseDelta).updatedMatching = false) :
    d.updatedMatching = false ∧ (d.updateMatchingDelta sha256 bloom pre pFalseDelta).matching = d.matching := by
  simp only [EbNDevice.updateMatchingDelta, Bool.or_eq_false_iff, List.any_eq_false, Bool.not_eq_true',
    Bool.not_eq_false] at h ⊢
  exact ⟨h.1, List.filter_eq_self.mpr h.2⟩

theorem DeviceOp.apply_matching {op : DeviceOp P} {d : EbNDevice P}
    (h : (op.apply sha256 d).updatedMatching = false) :
    d.updatedMatching = false ∧ (op.apply sha256 d).matching = d.matching := by
  cases op with
  | addSharedSecret secret =>
      obtain ⟨hmatching, hupdated, _⟩ := addSharedSecret_matching d secret
      exact ⟨hupdated ▸ h, hmatching⟩
  | updateMatching | updateMatchingDelta => exact updateMatchingDelta_unchanged h
  | confirmPassive | confirmPassiveDelta | addRSSIMeasurement | setShakenHands => exact ⟨h, rfl⟩

theorem DeviceOp.apply_rssi (op : DeviceOp P) (d : EbNDevice P) :
    (op.apply sha256 d).rssiToReport = d.rssiToReport ++ (ReportOp.change op).measurement := by
  cases op with
  | addSharedSecret secret => exact (addSharedSecret_matching d secret).2.2.trans (List.append_nil _).symm
  | addRSSIMeasurement time rssi => rfl
  | confirmPassive | confirmPassiveDelta | updateMatching | updateMatchingDelta | setShakenHands =>
      exact (List.append_nil _).symm

/-! ## The invariant -/

structure Reports.Inv (listenSet : List LinkValue) (r : Reports P) : Prop where
  nodup : (values r.device.sharedSecrets).Nodup
  secrets : (values r.reportedSecrets).Perm (confirmedValues r.device.sharedSecrets)
  client : r.device.updatedMatching = false → r.clientMatching listenSet = r.device.matching
  pending : r.device.confirmed = true → r.device.reported = false → r.device.secretsToReport ≠ []
  reported : r.device.reported = false ↔ r.events = []
  types : StartedThenUpdated r.events

theorem Reports.Inv.change {listenSet : List LinkValue} {r : Reports P} (h : r.Inv listenSet) (op : DeviceOp P) :
    (r.step sha256 (.change op)).Inv listenSet := by
  obtain ⟨new, hnew⟩ := DeviceOp.apply_confirms sha256 op r.device
  refine ⟨hnew.nodup h.nodup, ?_, ?_, ?_, ?_, h.types⟩
  · calc values (r.step sha256 (.change op)).reportedSecrets
        = values r.reportedSecrets ++ new := by
          have hvalues := hnew.toReport
          simp only [Reports.reportedSecrets, Reports.step, values, List.map_append, List.append_assoc] at hvalues ⊢
          rw [hvalues]
      List.Perm _ (confirmedValues r.device.sharedSecrets ++ new) := h.secrets.append_right new
      List.Perm _ _ := hnew.confirmedValues.symm
  · intro hupdated
    obtain ⟨hbefore, hmatching⟩ := DeviceOp.apply_matching hupdated
    exact (h.client hbefore).trans hmatching.symm
  · intro hconfirmed hreported hempty
    have hvalues := hnew.toReport
    simp only [Reports.step] at hconfirmed hreported hempty
    rw [hempty] at hvalues
    obtain ⟨hold, rfl⟩ := List.append_eq_nil_iff.mp hvalues.symm
    rw [hnew.confirmed] at hconfirmed
    rw [hnew.reported] at hreported
    exact h.pending (by simpa using hconfirmed) hreported (List.map_eq_nil_iff.mp hold)
  · exact (by rw [show (r.step sha256 (.change op)).device.reported = r.device.reported from hnew.reported]
              exact h.reported)

/-- A report that succeeds leaves nothing queued. -/
theorem Reports.step_success {r : Reports P} {time rssiReportingInterval now later : Time}
    (h : r.device.isUpdated rssiReportingInterval now = true) :
    r.step sha256 (.getEncounterInfo time rssiReportingInterval now later)
      = ⟨{ r.device with
            updatedMatching := false, secretsToReport := [], rssiToReport := []
            reported := true, lastReportTime := later },
          r.events ++ [⟨if r.device.reported then .Updated else .Started, time, r.device.id,
            r.device.address.toString, r.device.rssiToReport,
            if r.device.updatedMatching then r.device.matching else [], r.device.secretsToReport,
            r.device.updatedMatching, !r.device.secretsToReport.isEmpty⟩]⟩ := by
  cases hrssi : r.device.rssiToReport <;> cases hsecrets : r.device.secretsToReport <;>
    simp [Reports.step, EbNDevice.getEncounterInfo, h, EncounterEvent.ofTime, EncounterEvent.new, hrssi, hsecrets]

theorem Reports.step_failure {r : Reports P} {time rssiReportingInterval now later : Time}
    (h : r.device.isUpdated rssiReportingInterval now = false) :
    r.step sha256 (.getEncounterInfo time rssiReportingInterval now later) = r := by
  simp [Reports.step, EbNDevice.getEncounterInfo, h]

theorem Reports.Inv.report {listenSet : List LinkValue} {r : Reports P} (h : r.Inv listenSet)
    (time rssiReportingInterval now later : Time) :
    (r.step sha256 (.getEncounterInfo time rssiReportingInterval now later)).Inv listenSet := by
  cases hupdated : r.device.isUpdated rssiReportingInterval now with
  | false => rw [Reports.step_failure hupdated]; exact h
  | true =>
      rw [Reports.step_success hupdated]
      refine ⟨h.nodup, ?_, ?_, fun _ hreported => Bool.noConfusion hreported, by simp, ?_⟩
      · have hsecrets := h.secrets
        simpa [Reports.reportedSecrets] using hsecrets
      · intro _
        cases hmatching : r.device.updatedMatching with
        | false => simpa [Reports.clientMatching, hmatching] using h.client hmatching
        | true => simp [Reports.clientMatching]
      · cases hreported : r.device.reported with
        | true =>
            have hne : r.events ≠ [] := fun he => by simp [h.reported.mpr he] at hreported
            exact h.types.append hne rfl
        | false =>
            have hconfirmed : r.device.confirmed = true := by
              simp only [EbNDevice.isUpdated, Bool.and_eq_true] at hupdated
              exact hupdated.1.1
            rw [h.reported.mp hreported]
            refine ⟨fun e he => ?_, fun e he => by cases he⟩
            cases he
            exact ⟨rfl, h.pending hconfirmed hreported⟩

theorem Reports.Inv.step {listenSet : List LinkValue} {r : Reports P} (h : r.Inv listenSet) (op : ReportOp P) :
    (r.step sha256 op).Inv listenSet := by
  cases op with
  | change op => exact h.change op
  | getEncounterInfo time rssiReportingInterval now later => exact h.report time rssiReportingInterval now later

theorem Reports.Inv.run (id : DeviceID) (address : Address) (listenSet : List LinkValue) (ops : List (ReportOp P)) :
    (run sha256 id address listenSet ops).Inv listenSet := by
  refine List.foldlRecOn ops _ (motive := Reports.Inv listenSet) ?_ fun r h op _ => h.step op
  exact ⟨List.nodup_nil, List.Perm.refl _, fun _ => rfl, fun h => Bool.noConfusion h, by simp [EbNDevice.new],
    ⟨fun e he => (by cases he), fun e he => (by cases he)⟩⟩

/-! ## Measurements -/

theorem Reports.step_rssi (r : Reports P) (op : ReportOp P) :
    (r.step sha256 op).reportedRSSI = r.reportedRSSI ++ op.measurement := by
  cases op with
  | change op =>
      simp only [Reports.reportedRSSI, Reports.step, DeviceOp.apply_rssi, List.append_assoc]
  | getEncounterInfo time rssiReportingInterval now later =>
      cases hupdated : r.device.isUpdated rssiReportingInterval now with
      | false => rw [Reports.step_failure hupdated]; exact (List.append_nil _).symm
      | true => rw [Reports.step_success hupdated]; simp [Reports.reportedRSSI, ReportOp.measurement]

theorem Reports.foldl_step_rssi (ops : List (ReportOp P)) (r : Reports P) :
    (ops.foldl (Reports.step sha256) r).reportedRSSI = r.reportedRSSI ++ ops.flatMap ReportOp.measurement := by
  induction ops generalizing r with
  | nil => exact (List.append_nil _).symm
  | cons op ops ih => rw [List.foldl_cons, ih, Reports.step_rssi, List.flatMap_cons, List.append_assoc]

end Sddr.Device
