import Sddr.Lib.Bytes

/-!
# Scan events

How `performScan` of `BluetoothHCI.cpp` reads an event from its buffer. `recv` writes the event to the front of the
buffer, and behind it is what earlier events left.
-/

namespace Sddr.Sockets
open Sddr.Lib

namespace BluetoothHCI

def HCI_MAX_EVENT_SIZE : Nat := 260

def EVT_LE_META_EVENT : Byte := 0x3E

/-- The fields in front of `data` in `le_advertising_info`. -/
def LE_ADVERTISING_INFO_SIZE : Nat := 9

/-- `ScanResponse`. `data` is a position in the buffer. -/
structure ScanResponse where
  address : List Byte
  data : Nat
  length : Byte
  rssi : Byte
  deriving DecidableEq, Repr

/-- The buffer after `recv`. The number of bytes is not kept. -/
def received (stale : Mem) (event : List Byte) : Mem := stale.copy (Mem.ofList event) event.length

/-- What is done with the buffer, in order: a byte is read, or the callback is called. -/
inductive Access where
  | read (pos : Nat)
  | callback (response : ScanResponse)
  deriving DecidableEq, Repr

/-- The loop over the reports, with `metaEventBody` at position `pos`. -/
def parseReports (buffer : Mem) : Nat → Nat → List Access
  | 0, _ => []
  | numReports + 1, pos =>
      let length := buffer (pos + 8)
      let data := pos + LE_ADVERTISING_INFO_SIZE
      (List.range 6).map (fun i => .read (pos + 2 + i)) ++
        [.read (pos + 8), .read (data + length.toNat),
          .callback ⟨(buffer.add (pos + 2)).take 6, data, length, buffer (data + length.toNat)⟩] ++
        parseReports buffer numReports (pos + (LE_ADVERTISING_INFO_SIZE + length.toNat + 1))

/-- The part of the loop of `performScan` behind `recv`. The packet type is at position 0, `hci_event_hdr` at 1 and
`evt_le_meta_event` at 3. -/
def parseEvent (buffer : Mem) : List Access :=
  .read 1 ::
    if buffer 1 = EVT_LE_META_EVENT then
      .read 3 :: if buffer 3 = 0x02 then .read 4 :: parseReports buffer (buffer 4).toNat 5 else []
    else []

/-! ## What the events are -/

/-- `le_advertising_info` with its data, and the `rssi` behind it. -/
structure AdvertReport where
  evtType : Byte
  bdaddrType : Byte
  bdaddr : List Byte
  data : List Byte
  rssi : Byte
  length_bdaddr : bdaddr.length = 6
  length_data : data.length < 2 ^ 8

def AdvertReport.bytes (report : AdvertReport) : List Byte :=
  [report.evtType, report.bdaddrType] ++ report.bdaddr ++ [BitVec.ofNat 8 report.data.length] ++ report.data ++
    [report.rssi]

/-- What is read of an event is in the event: the header, of an LE meta event the subevent, of an advertising report
the count, and then at least that many complete reports. -/
def Complete (event : List Byte) : Prop :=
  1 < event.length ∧ (event.getD 1 0 = EVT_LE_META_EVENT →
    3 < event.length ∧ (event.getD 3 0 = 0x02 →
      4 < event.length ∧ ∃ reports : List AdvertReport, ∃ rest,
        reports.length = (event.getD 4 0).toNat ∧ event.drop 5 = reports.flatMap AdvertReport.bytes ++ rest))

/-- Inside the first `n` bytes. -/
def Access.Within (n : Nat) : Access → Prop
  | .read pos => pos < n
  | .callback response => response.data + response.length.toNat ≤ n

instance (n : Nat) : DecidablePred (Access.Within n)
  | .read pos => inferInstanceAs (Decidable (pos < n))
  | .callback response => inferInstanceAs (Decidable (response.data + response.length.toNat ≤ n))

def Access.response : Access → Option ScanResponse
  | .read _ => none
  | .callback response => some response

/-- The callback finds the report in what it gets. -/
structure ScanResponse.Shows (buffer : Mem) (response : ScanResponse) (report : AdvertReport) : Prop where
  address : response.address = report.bdaddr
  length : response.length.toNat = report.data.length
  data : (buffer.add response.data).take response.length.toNat = report.data
  rssi : response.rssi = report.rssi

def ParsedInside (stale : Mem) (event : List Byte) : Prop :=
  ∀ access ∈ parseEvent (received stale event), access.Within event.length

/-- Of a count and that many reports, whatever comes after them, each report is shown to the callback. -/
def ParsedInOrder (stale : Mem) (event : List Byte) : Prop :=
  ∀ (type plen count : Byte) (reports : List AdvertReport) (rest : List Byte), reports.length = count.toNat →
    event = [type, EVT_LE_META_EVENT, plen, 0x02, count] ++ (reports.flatMap AdvertReport.bytes ++ rest) →
    List.Forall₂ (ScanResponse.Shows (received stale event))
      ((parseEvent (received stale event)).filterMap Access.response) reports

end BluetoothHCI

end Sddr.Sockets
