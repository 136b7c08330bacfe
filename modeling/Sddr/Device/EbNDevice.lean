import Sddr.Device.LinkValue

/-!
# EbNDevice

`EbNDevice.h` and `EbNDevice.cpp`: what a radio knows about one remote device, and the reports about it.
-/

namespace Sddr.Device
open Sddr.Lib Sddr.Codec

structure EbNDevice (P : Type) where
  id : DeviceID
  address : Address
  matching : List LinkValue
  updatedMatching : Bool
  matchingPFalse : P
  sharedSecrets : List (SharedSecret P)
  secretsToReport : List (SharedSecret P)
  rssiToReport : List RSSIEvent
  lastReportTime : Time
  confirmed : Bool
  shakenHands : Bool
  reported : Bool

namespace EbNDevice

variable {P : Type} [FloatOps P] (sha256 : List Byte → Digest)

def new (id : DeviceID) (address : Address) (listenSet : List LinkValue) : EbNDevice P :=
  ⟨id, address, listenSet, false, FloatOps.one, [], [], [], 0, false, false, false⟩

def setAddress (d : EbNDevice P) (address : Address) : EbNDevice P := { d with address := address }

def setShakenHands (d : EbNDevice P) (value : Bool) : EbNDevice P := { d with shakenHands := value }

def addRSSIMeasurement (d : EbNDevice P) (time : Time) (rssi : BitVec 8) : EbNDevice P :=
  { d with rssiToReport := d.rssiToReport ++ [⟨time, rssi⟩] }

/-! ## The matching set -/

/-- `updateMatching(bloom, prefix, prefixSize, pFalseDelta)`. -/
def updateMatchingDelta (d : EbNDevice P) (bloom : BloomFilter P) (pre : List Byte) (pFalseDelta : P) :
    EbNDevice P :=
  { d with
    matching := d.matching.filter fun v => bloom.query sha256 pre v
    updatedMatching := d.updatedMatching || d.matching.any fun v => !bloom.query sha256 pre v
    matchingPFalse := FloatOps.mul d.matchingPFalse pFalseDelta }

/-- `updateMatching(bloom, prefix, prefixSize)`. -/
def updateMatching (d : EbNDevice P) (bloom : BloomFilter P) (pre : List Byte) : EbNDevice P :=
  d.updateMatchingDelta sha256 bloom pre bloom.pFalse

/-! ## Shared secrets -/

/-- The loop of `addSharedSecret`: the new list, and whether the secret is now to be reported. -/
def insertSecret (secret : SharedSecret P) : List (SharedSecret P) → List (SharedSecret P) × Bool
  | [] => ([secret], secret.confirmed)
  | it :: rest =>
      if secret.value = it.value then
        if !it.confirmed && secret.confirmed then (it.confirm secret.confirmedBy :: rest, true)
        else (it :: rest, false)
      else
        let inserted := insertSecret secret rest
        (it :: inserted.1, inserted.2)

def addSharedSecret (d : EbNDevice P) (secret : SharedSecret P) : EbNDevice P :=
  let inserted := insertSecret secret d.sharedSecrets
  if inserted.2 then
    { d with
      sharedSecrets := inserted.1
      confirmed := true
      secretsToReport := d.secretsToReport ++ [secret] }
  else { d with sharedSecrets := inserted.1 }

/-- The body of the loop of `confirmPassive`: the changed secret, and whether the filter confirmed it. -/
def confirmSecret (bloom : BloomFilter P) (pre : List Byte) (threshold pFalseDelta : P) (secret : SharedSecret P) :
    SharedSecret P × Bool :=
  if !secret.confirmed && FloatOps.lt threshold secret.pFalse then
    if bloom.query sha256 pre secret.value then
      let pFalse := FloatOps.mul secret.pFalse pFalseDelta
      if FloatOps.le pFalse threshold then (({ secret with pFalse := pFalse }).confirm .passive, true)
      else ({ secret with pFalse := pFalse }, false)
    else ({ secret with pFalse := FloatOps.one }, false)
  else (secret, false)

/-- `confirmPassive(bloom, prefix, prefixSize, threshold, pFalseDelta)`. -/
def confirmPassiveDelta (d : EbNDevice P) (bloom : BloomFilter P) (pre : List Byte) (threshold pFalseDelta : P) :
    EbNDevice P :=
  let results := d.sharedSecrets.map (confirmSecret sha256 bloom pre threshold pFalseDelta)
  { d with
    sharedSecrets := results.map Prod.fst
    confirmed := d.confirmed || results.any Prod.snd
    secretsToReport := d.secretsToReport ++ (results.filter Prod.snd).map Prod.fst }

/-- `confirmPassive(bloom, prefix, prefixSize, threshold)`. -/
def confirmPassive (d : EbNDevice P) (bloom : BloomFilter P) (pre : List Byte) (threshold : P) : EbNDevice P :=
  d.confirmPassiveDelta sha256 bloom pre threshold bloom.pFalse

/-! ## Reports -/

/-- `isUpdated` of `getEncounterInfo`, at the time `now` of its first call of `getTimeMS()`. -/
def isUpdated (d : EbNDevice P) (rssiReportingInterval now : Time) : Bool :=
  let reportSecrets := !d.secretsToReport.isEmpty
  let reportMatching := d.updatedMatching
  let reportRSSI := !d.rssiToReport.isEmpty && decide (now - d.lastReportTime > rssiReportingInterval)
  d.confirmed && d.shakenHands && (reportSecrets || reportMatching || reportRSSI)

/-- `getEncounterInfo(dest, rssiReportingInterval, expired)`. The clock reads `now` at its first call and `later` at
its second. -/
def getEncounterInfo (d : EbNDevice P) (dest : EncounterEvent P) (rssiReportingInterval : Time) (expired : Bool)
    (now later : Time) : Bool × EncounterEvent P × EbNDevice P :=
  let rssiEvents := if d.rssiToReport.isEmpty then dest.rssiEvents else d.rssiToReport
  if expired then
    (true,
      { dest with
        type := .Ended, id := d.id, address := d.address.toString, matchingSetUpdated := false
        rssiEvents := rssiEvents },
      { d with rssiToReport := [] })
  else if d.isUpdated rssiReportingInterval now then
    (true,
      { dest with
        type := if d.reported then .Updated else .Started
        id := d.id, address := d.address.toString
        matching := if d.updatedMatching then d.matching else dest.matching
        matchingSetUpdated := d.updatedMatching
        sharedSecrets := if d.secretsToReport.isEmpty then dest.sharedSecrets else d.secretsToReport
        sharedSecretsUpdated := !d.secretsToReport.isEmpty
        rssiEvents := rssiEvents },
      { d with
        updatedMatching := false, secretsToReport := [], rssiToReport := []
        reported := true, lastReportTime := later })
  else (false, dest, d)

/-- `getEncounterInfo(dest, expired)`. -/
def getEncounterInfoDefault (d : EbNDevice P) (dest : EncounterEvent P) (expired : Bool) (now later : Time) :
    Bool × EncounterEvent P × EbNDevice P :=
  d.getEncounterInfo dest (BitVec.allOnes 64) expired now later

end EbNDevice

end Sddr.Device
