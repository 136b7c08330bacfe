import Sddr.Sockets.Scan

/-!
# Scan events

The loop over the reports stays inside the event as long as there are complete reports in it.
-/

namespace Sddr.Sockets
open Sddr.Lib

namespace BluetoothHCI

variable {stale : Mem} {event : List Byte}

/-! ## The buffer -/

theorem received_eq {i : Nat} (hi : i < event.length) : received stale event i = event.getD i 0 := if_pos hi

theorem add_take (m : Mem) {a b n : Nat} (h : a + b ≤ n) : (m.add a).take b = ((m.take n).drop a).take b := by
  refine List.ext_getElem (by simp; omega) fun i hi _ => ?_
  simp [Mem.take, Mem.add]

/-- The bytes of the event from a position on. -/
theorem received_take {pos : Nat} {part rest : List Byte} (hpart : event.drop pos = part ++ rest) :
    ((received stale event).add pos).take part.length = part := by
  have hlength := congrArg List.length hpart
  rw [List.length_drop, List.length_append] at hlength
  refine List.ext_getElem (by simp) fun i hi hi' => ?_
  have hat : event[pos + i]? = some part[i] := by
    rw [← List.getElem?_drop, hpart, List.getElem?_append_left hi', List.getElem?_eq_getElem hi']
  have hin : pos + i < event.length := by omega
  simp [Mem.take, Mem.add, received_eq hin, List.getD_eq_getElem?_getD, hat]

/-! ## A report -/

theorem AdvertReport.length_bytes (report : AdvertReport) : report.bytes.length = report.data.length + 10 := by
  simp [bytes, report.length_bdaddr]
  omega

/-- The bytes from a position on, when a report fits in them. -/
theorem exists_report {l : List Byte} (h : 9 + (l.getD 8 0).toNat < l.length) :
    ∃ report : AdvertReport, report.data.length = (l.getD 8 0).toNat ∧
      l = report.bytes ++ l.drop (report.data.length + 10) := by
  match l, h with
  | evtType :: bdaddrType :: b0 :: b1 :: b2 :: b3 :: b4 :: b5 :: length :: tail, h =>
      have htail : length.toNat < tail.length := by
        simp only [List.length_cons, List.getD_cons_succ, List.getD_cons_zero] at h
        omega
      have hdata : (tail.take length.toNat).length = length.toNat := by
        rw [List.length_take]
        omega
      refine ⟨⟨evtType, bdaddrType, [b0, b1, b2, b3, b4, b5], tail.take length.toNat, tail[length.toNat], rfl, ?_⟩,
        hdata, ?_⟩
      · rw [hdata]
        exact length.isLt
      · simp [AdvertReport.bytes, hdata]

section
variable (stale) {pos : Nat} {report : AdvertReport} {rest : List Byte} (hreport : event.drop pos = report.bytes ++ rest)
include hreport

theorem received_report : ((received stale event).add pos).take (report.data.length + 10) = report.bytes := by
  rw [← report.length_bytes]
  exact received_take hreport

theorem received_report_getD {i : Nat} (hi : i < report.data.length + 10) :
    received stale event (pos + i) = report.bytes.getD i 0 := by
  rw [← received_report stale hreport, Mem.take_getD hi, Mem.add]

theorem received_length : (received stale event (pos + 8)).toNat = report.data.length := by
  rw [received_report_getD stale hreport (by omega)]
  simpa [AdvertReport.bytes, report.length_bdaddr, List.getElem?_append] using report.length_data

theorem shows_report :
    ScanResponse.Shows (received stale event) ⟨((received stale event).add (pos + 2)).take 6, pos + 9,
      received stale event (pos + 8), received stale event (pos + 9 + (received stale event (pos + 8)).toNat)⟩
      report := by
  have hlength := received_length stale hreport
  have hbytes := received_report stale hreport
  refine ⟨?_, hlength, ?_, ?_⟩
  · rw [← Mem.add_add, add_take _ (by omega : 2 + 6 ≤ report.data.length + 10), hbytes]
    simp [AdvertReport.bytes, report.length_bdaddr]
  · rw [← Mem.add_add, hlength, add_take _ (by omega : 9 + report.data.length ≤ report.data.length + 10), hbytes]
    have hnil : report.bdaddr.drop 7 = [] := List.drop_eq_nil_of_le (by rw [report.length_bdaddr]; decide)
    simp [AdvertReport.bytes, report.length_bdaddr, List.drop_append, hnil]
  · change received stale event (pos + 9 + (received stale event (pos + 8)).toNat) = report.rssi
    have hfront : ([report.evtType, report.bdaddrType] ++ report.bdaddr ++ [BitVec.ofNat 8 report.data.length] ++
        report.data).length = 9 + report.data.length := by
      simp [report.length_bdaddr]
      omega
    rw [hlength, Nat.add_assoc, received_report_getD stale hreport (by omega), AdvertReport.bytes, ← hfront]
    simp

end

/-! ## The loop -/

theorem drop_report {pos : Nat} {report : AdvertReport} {rest : List Byte}
    (hreport : event.drop pos = report.bytes ++ rest) :
    event.drop (pos + (LE_ADVERTISING_INFO_SIZE + (received stale event (pos + 8)).toNat + 1)) = rest := by
  rw [received_length stale hreport, ← List.drop_drop, hreport]
  exact List.drop_left' (by rw [report.length_bytes, LE_ADVERTISING_INFO_SIZE]; omega)

/-- One round stays inside the event if and only if there is a report at the position. -/
theorem parseReport_within_iff {numReports pos : Nat} :
    (∀ access ∈ parseReports (received stale event) (numReports + 1) pos, access.Within event.length) ↔
      ∃ report : AdvertReport, ∃ rest, event.drop pos = report.bytes ++ rest ∧
        ∀ access ∈ parseReports (received stale event) numReports
          (pos + (LE_ADVERTISING_INFO_SIZE + (received stale event (pos + 8)).toNat + 1)),
          access.Within event.length := by
  constructor
  · intro h
    rw [parseReports, List.forall_mem_append, List.forall_mem_append] at h
    obtain ⟨⟨-, hfields⟩, hrest⟩ := h
    simp only [List.forall_mem_cons, Access.Within, LE_ADVERTISING_INFO_SIZE] at hfields
    obtain ⟨hlength, hrssi, -⟩ := hfields
    have hat : (event.drop pos).getD 8 0 = received stale event (pos + 8) := by
      rw [received_eq hlength, List.getD_eq_getElem?_getD, List.getElem?_drop, List.getD_eq_getElem?_getD]
    obtain ⟨report, hdata, hreport⟩ :=
      @exists_report (event.drop pos) (by rw [hat, List.length_drop]; omega)
    exact ⟨report, _, hreport, hrest⟩
  · rintro ⟨report, rest, hreport, hrest⟩
    have hsize := congrArg List.length hreport
    rw [List.length_drop, List.length_append, report.length_bytes] at hsize
    rw [parseReports, List.forall_mem_append, List.forall_mem_append]
    refine ⟨⟨?_, ?_⟩, hrest⟩
    · simp only [List.forall_mem_map, List.mem_range, Access.Within]
      intro i hi
      omega
    · simp only [List.forall_mem_cons, Access.Within, LE_ADVERTISING_INFO_SIZE, received_length stale hreport]
      exact ⟨by omega, by omega, by omega, fun _ hnil => by cases hnil⟩

theorem parseReports_within_iff (numReports pos : Nat) :
    (∀ access ∈ parseReports (received stale event) numReports pos, access.Within event.length) ↔
      ∃ reports : List AdvertReport, ∃ rest, reports.length = numReports ∧
        event.drop pos = reports.flatMap AdvertReport.bytes ++ rest := by
  induction numReports generalizing pos with
  | zero => exact ⟨fun _ => ⟨[], event.drop pos, rfl, rfl⟩, fun _ access haccess => by cases haccess⟩
  | succ numReports ih =>
      rw [parseReport_within_iff]
      constructor
      · rintro ⟨report, rest, hreport, hrest⟩
        obtain ⟨reports, back, hcount, hback⟩ := (ih _).mp hrest
        rw [drop_report hreport] at hback
        exact ⟨report :: reports, back, congrArg Nat.succ hcount, by
          rw [hreport, hback, List.flatMap_cons, List.append_assoc]⟩
      · rintro ⟨reports, rest, hcount, hdrop⟩
        match reports, hcount with
        | report :: reports, hcount =>
            rw [List.flatMap_cons, List.append_assoc] at hdrop
            exact ⟨report, _, hdrop, (ih _).mpr ⟨reports, rest, Nat.succ.inj hcount, drop_report hdrop⟩⟩

theorem parseReports_shows {reports : List AdvertReport} {pos : Nat} {rest : List Byte}
    (hdrop : event.drop pos = reports.flatMap AdvertReport.bytes ++ rest) :
    List.Forall₂ (ScanResponse.Shows (received stale event))
      ((parseReports (received stale event) reports.length pos).filterMap Access.response) reports := by
  induction reports generalizing pos with
  | nil => exact List.Forall₂.nil
  | cons report reports ih =>
      rw [List.flatMap_cons, List.append_assoc] at hdrop
      have hnone : ((List.range 6).map fun i => Access.read (pos + 2 + i)).filterMap Access.response = [] := by
        rw [List.filterMap_map]
        exact List.filterMap_eq_nil_iff.mpr fun i _ => rfl
      rw [List.length_cons, parseReports, List.filterMap_append, List.filterMap_append, hnone]
      exact List.Forall₂.cons (shows_report stale hdrop) (ih (drop_report hdrop))

/-! ## The event -/

theorem parsedInside_iff : ParsedInside stale event ↔ Complete event := by
  unfold ParsedInside Complete parseEvent
  rw [List.forall_mem_cons]
  refine and_congr_right fun h1 => ?_
  rw [received_eq h1]
  by_cases hmeta : event.getD 1 0 = EVT_LE_META_EVENT
  · rw [if_pos hmeta, List.forall_mem_cons, imp_iff_right hmeta]
    refine and_congr_right fun h3 => ?_
    rw [received_eq h3]
    by_cases hadvert : event.getD 3 0 = 0x02
    · rw [if_pos hadvert, List.forall_mem_cons, imp_iff_right hadvert]
      refine and_congr_right fun h4 => ?_
      rw [received_eq h4]
      exact parseReports_within_iff _ 5
    · rw [if_neg hadvert]
      exact ⟨fun _ h => absurd h hadvert, fun _ access haccess => by cases haccess⟩
  · rw [if_neg hmeta]
    exact ⟨fun _ h => absurd h hmeta, fun _ access haccess => by cases haccess⟩

theorem parsedInOrder (stale : Mem) (event : List Byte) : ParsedInOrder stale event := by
  rintro type plen count reports rest hcount rfl
  have hsize : ∀ i < 5, i < ([type, EVT_LE_META_EVENT, plen, 0x02, count] ++
      (reports.flatMap AdvertReport.bytes ++ rest)).length := fun i hi => by
    rw [List.length_append]
    exact Nat.lt_add_right _ hi
  rw [parseEvent, received_eq (hsize 1 (by decide)), received_eq (hsize 3 (by decide)),
    received_eq (hsize 4 (by decide))]
  change List.Forall₂ _ ((parseReports _ count.toNat 5).filterMap Access.response) reports
  rw [← hcount]
  exact parseReports_shows rfl

end BluetoothHCI

end Sddr.Sockets
