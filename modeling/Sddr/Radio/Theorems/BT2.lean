import Sddr.Radio.Lemmas.BT2Epoch

/-! # Main results about the BT2 radio -/

namespace Sddr.Radio.EbNRadioBT2
open Sddr.Lib Sddr.Codec Sddr.Device BT2

/-! ## Adverts -/

/-- Number and key always arrive. The matching set keeps every common link value exactly when, at each of the places that
the value hashes to modulo the bits behind the number, there is a bit of the key that is set or, behind the key, a bit of
the sender's filter that it has set and that is not one of its last 16. -/
theorem processAdvert_generateAdvert_iff {P : Type} [FloatOps P] {ec : Ec} (sha256 : List Byte → Digest)
    (rand : Nat → Nat) (sender receiver : EbNRadioBT2 P ec) (n : Nat) (device : EbNDeviceBT2 P) (time : Time)
    (hn : n < ADV_N) (hnew : device.epochs = []) :
    let data := Mem.ofList (generateAdvert sha256 rand sender n).toBytes
    let received := (processAdvert sha256 receiver device time data true).2
    let pre := (sender.prefixOf n sender.dhExchange.getPublicX).toBytes
    ((∃ e, received.epochs.getLast? = some e ∧ e.lastAdvertNum = n ∧
        e.dhRemotePublic = sender.dhExchange.getPublicX.take (ec.keySize / 8)) ∧
      ∀ v ∈ sender.advertisedSet, v ∈ device.matching → v ∈ received.matching)
    ↔ ∀ v ∈ sender.advertisedSet, v ∈ device.matching → ∀ k < sender.BF_K,
        FoundAt sha256 rand sender n ((sha256 (pre ++ v)).word k % (240 * 8 - 17 - ADV_N_LOG2)) := by
  intro data received pre
  obtain ⟨hepochs, hmatching⟩ := processAdvert_received sender receiver sha256 rand time hn hnew
  constructor
  · rintro ⟨_, hkept⟩ v hv hlisten
    exact ((hmatching v).mp (hkept v hv hlisten)).2
  · intro hfound
    refine ⟨⟨_, by rw [hepochs]; rfl, rfl, rfl⟩, fun v hv hlisten => (hmatching v).mpr ⟨hlisten, ?_⟩⟩
    exact hfound v hv hlisten

/-- A radio that advertises one link value, and a device that listens for it. -/
def oneValueRadio : EbNRadioBT2 LogRate byteCurve :=
  { new ⟨.Passive, some 4⟩ .Standard 0 (5 : Byte) (List.replicate 6 0) with advertisedSet := [[1]] }

def oneValueDevice : EbNDeviceBT2 LogRate := EbNDeviceBT2.new 0 (List.replicate 6 0) [[1]]

theorem processAdvert_generateAdvert_iff_zero :
    let data := Mem.ofList (generateAdvert (fun _ => 0) id oneValueRadio 3).toBytes
    let received := (processAdvert (fun _ => 0) oneValueRadio oneValueDevice 0 data true).2
    let pre := (oneValueRadio.prefixOf 3 oneValueRadio.dhExchange.getPublicX).toBytes
    ((∃ e, received.epochs.getLast? = some e ∧ e.lastAdvertNum = 3 ∧
        e.dhRemotePublic = oneValueRadio.dhExchange.getPublicX.take (byteCurve.keySize / 8)) ∧
      ∀ v ∈ oneValueRadio.advertisedSet, v ∈ oneValueDevice.matching → v ∈ received.matching)
    ↔ ∀ v ∈ oneValueRadio.advertisedSet, v ∈ oneValueDevice.matching → ∀ k < oneValueRadio.BF_K,
        FoundAt (fun _ => 0) id oneValueRadio 3
          (((fun _ => 0 : List Byte → Digest) (pre ++ v)).word k % (240 * 8 - 17 - ADV_N_LOG2)) :=
  processAdvert_generateAdvert_iff (fun _ => 0) id oneValueRadio oneValueRadio 3 oneValueDevice 0 (by decide) rfl

/-- With a hash whose first word is 1 the receiver looks at the second bit of the key, which is 0 in the key 5, and the common
link value is lost. -/
theorem processAdvert_generateAdvert_loses :
    let data := Mem.ofList (generateAdvert (fun _ => 1) id oneValueRadio 3).toBytes
    let received := (processAdvert (fun _ => 1) oneValueRadio oneValueDevice 0 data true).2
    3 < ADV_N ∧ oneValueRadio.advertisedSet.length ≤ maxAdvert oneValueRadio.confirmScheme.type ∧
      oneValueDevice.epochs = [] ∧ [1] ∈ oneValueRadio.advertisedSet ∧ [1] ∈ oneValueDevice.matching ∧
      ¬ [1] ∈ received.matching := by
  refine ⟨by decide, by decide, rfl, by decide, by decide, fun hmem => ?_⟩
  obtain ⟨_, hmatching⟩ := processAdvert_received oneValueRadio oneValueRadio (fun _ => 1) id 0 (n := 3)
    (by decide) (show oneValueDevice.epochs = [] from rfl)
  exact absurd (((hmatching [1]).mp hmem).2 0 (by decide)) (by decide)

/-! ## Epoch changes -/

/-- After a change of epoch the secret with the new key is held exactly when it was before or the octets read in place
of the remote key stand for it. In runs where they do, two radios that heard each other hold a common secret. -/
theorem changeEpoch_secret_iff {P : Type} [FloatOps P] {ec : Ec} (hlaws : ec.Laws) (sha256 : List Byte → Digest) :
    (∀ (rand : Nat → Nat) (next : DeviceID → Byte) (r : EbNRadioBT2 P ec) (key : ec.Key) (random : Nat → Byte)
        (id : DeviceID) (device : EbNDeviceBT2 P) (curEpoch : Epoch) (p : ec.Point) (y : Bool) (v : LinkValue),
      r.confirmScheme.type.hasPassive = true → id ∈ r.deviceMap.idToDevice → r.heap id = some device →
      device.epochs.getLast? = some curEpoch →
      ec.point2oct p = (if y then 0x03 else 0x02) :: curEpoch.dhRemotePublic → ec.computeKey p key = some v →
      let r' := changeEpoch sha256 rand next r key random
      (∀ dest : SharedSecret P, r'.dhExchange.computeSharedSecretXY dest (Mem.ofList curEpoch.dhRemotePublic) y
          = some { dest with value := v }) ∧
        ((∃ device', r'.heap id = some device' ∧ v ∈ device'.sharedSecrets.map SharedSecret.value)
          ↔ ReadsSecret device (next id) key v)) ∧
    ∀ (a b : Party P ec) (events : List (Bool × PartyEvent ec)), a.Ready → b.Ready → a.heard = false →
      b.heard = false → FairRun sha256 (a, b) events →
      let s := events.foldl (exchange sha256) (a, b)
      s.1.heard = true → s.2.heard = true → HoldSecret s.1 s.2 := by
  constructor
  · intro rand next r key random id device curEpoch p y v hpassive hid hdevice hepoch hX hv r'
    obtain ⟨hexchange, _, _, _, hheap⟩ := changeEpoch_fields sha256 rand next r key random
    have hshift := (shiftEpoch_fields sha256 rand r key random).1
    have hlength : curEpoch.dhRemotePublic.length = ec.keySize / 8 := by
      have hoctets := hlaws.length_point2oct p
      rw [hX] at hoctets
      exact Nat.succ.inj hoctets
    have hmem := mem_changeEpochDevice (r := shiftEpoch sha256 rand r key random) (next id) v hepoch hlength
    rw [hshift] at hmem
    have hdevice' := hheap hpassive id hid device hdevice
    refine ⟨fun dest => ?_, ?_⟩
    · rw [ECDH.computeSharedSecretXY_public hlaws _ dest hX, hexchange]
      change (ec.computeKey p key).map _ = _
      rw [hv, Option.map_some]
    · constructor
      · rintro ⟨device', hheap', hheld⟩
        rw [hdevice'] at hheap'
        cases hheap'
        exact hmem.mp hheld
      · exact fun hreads => ⟨_, hdevice', hmem.mpr hreads⟩
  · intro a b events ha hb haheard hbheard hfair s
    have hstart : Linked (a, b) := by
      refine ⟨ha, hb, fun heard => ?_, fun heard => ?_⟩
      · exact absurd (haheard.symm.trans heard) Bool.false_ne_true
      · exact absurd (hbheard.symm.trans heard) Bool.false_ne_true
    exact (fairRun_linked hlaws events hstart hfair).holdSecret hlaws

/-- A radio with the key 7 that heard an advert with the key 5 from its only device. -/
def heardDevice : EbNDeviceBT2 LogRate :=
  { oneValueDevice with epochs := [⟨3, 0, 5 :: List.replicate 23 0⟩] }

def trackingRadio : EbNRadioBT2 LogRate byteCurve :=
  { new ⟨.Passive, some 4⟩ .Standard 0 (7 : Byte) (List.replicate 6 0) with
    heap := fun id => if id = 0 then some heardDevice else none
    deviceMap := ⟨AList.insert (List.replicate 6 0) 0 ∅, AList.insert 0 0 ∅⟩ }

/-- A radio that knows its peer's address only. -/
def quietRadio (key : Byte) : EbNRadioBT2 LogRate byteCurve :=
  { new ⟨.Passive, some 4⟩ .Standard 0 key (List.replicate 6 0) with
    heap := fun id => if id = 0 then some oneValueDevice else none
    deviceMap := ⟨AList.insert (List.replicate 6 0) 0 ∅, AList.insert 0 0 ∅⟩ }

def quietParty (key : Byte) : Party LogRate byteCurve :=
  ⟨initializeRadio (fun _ => 0) id (fun _ => 0) (quietRadio key), 0, false⟩

theorem quietParty_heap (key : Byte) : (quietParty key).radio.heap 0 = some oneValueDevice :=
  congrArg (fun r => r.heap 0) (initializeRadio_fields (fun _ => 0) id (fun _ => 0) (quietRadio key)).2.1

theorem quietParty_ready (key : Byte) : (quietParty key).Ready := by
  obtain ⟨hexchange, hbase, hlength, hy⟩ := initializeRadio_fields (fun _ => 0) id (fun _ => 0) (quietRadio key)
  refine ⟨?_, hlength, hy, ?_, ?_, oneValueDevice, quietParty_heap key⟩
  · exact hexchange
  · exact (congrArg (fun r => r.confirmScheme.type.hasPassive) hbase).trans (by decide : ConfirmType.Passive.hasPassive = true)
  · exact (congrArg (fun r => (0 : DeviceID) ∈ r.deviceMap.idToDevice) hbase).mpr (AList.mem_insert _ |>.mpr (Or.inl rfl))

/-- What the first radio knows after it has heard the second one. -/
theorem quietParty_hears {device : EbNDeviceBT2 LogRate}
    (hdevice : ((PartyEvent.hear 3 0 id).apply (fun _ => 0) (quietParty 6) (quietParty 2)).1.radio.heap 0 = some device) :
    ∃ curEpoch, device.epochs.getLast? = some curEpoch ∧ curEpoch.dhRemotePublic = 2 :: List.replicate 23 0 := by
  have hother := quietParty_ready 2
  obtain ⟨-, hcases⟩ := receive_spec (fun _ => 0) (quietParty 6).radio id 0 byteCurve_laws hother.key hother.yCoord
    (show 3 < ADV_N by decide) oneValueDevice
  rcases hcases with ⟨hold, -⟩ | ⟨curEpoch, hlast, hX, -⟩
  · exact absurd rfl hold
  · have hpeer : (quietParty 6).radio.heap (quietParty 6).peer = some oneValueDevice := quietParty_heap 6
    change ((PartyEvent.hear 3 0 id).apply (fun _ => 0) (quietParty 6) (quietParty 2)).1.radio.heap (quietParty 6).peer
      = some device at hdevice
    simp only [PartyEvent.apply, if_true, hpeer, Option.map_some, Option.some.injEq] at hdevice
    subst hdevice
    refine ⟨curEpoch, hlast, hX.trans ?_⟩
    rw [hother.key]
    rfl

/-- The first radio hears the second one, whose key starts with 2, and changes its epoch. What is read in place of the key of
the second one then has the same secret with the new key. -/
def quietEvents : List (Bool × PartyEvent byteCurve) :=
  [(true, .hear 3 0 id), (true, .changeEpoch (0x80 : Byte) id (fun _ => 0) (fun _ => 0)), (false, .hear 4 0 id)]

theorem quietEvents_fair : FairRun (fun _ => 0) (quietParty 6, quietParty 2) quietEvents := by
  refine ⟨⟨by decide, fun _ device hdevice => ?_⟩, fun _ device hdevice v hv => ?_,
    ⟨by decide, fun _ device hdevice => ?_⟩, trivial⟩
  · change (quietParty 6).radio.heap 0 = some device at hdevice
    rw [quietParty_heap] at hdevice
    cases hdevice
    rfl
  · obtain ⟨curEpoch, hlast, hX⟩ := quietParty_hears hdevice
    refine Or.inr ⟨curEpoch, (0 : Byte), hlast, by rw [hX]; rfl, ?_⟩
    change byteCurve.computeKey (byteCurve.publicKey (quietParty 2).radio.dhExchange.secret) (0x80 : Byte) = some v at hv
    rw [(quietParty_ready 2).key] at hv
    exact hv
  · change (quietParty 2).radio.heap 0 = some device at hdevice
    rw [quietParty_heap] at hdevice
    cases hdevice
    rfl

theorem changeEpoch_secret_iff_zero :
    ((∀ dest : SharedSecret LogRate,
        (changeEpoch (fun _ => 0) id (fun _ => 0) trackingRadio (9 : Byte) (fun _ => 0)).dhExchange.computeSharedSecretXY
          dest (Mem.ofList (5 :: List.replicate 23 0)) false = some { dest with value := 45 :: List.replicate 23 0 }) ∧
      ((∃ device', (changeEpoch (fun _ => 0) id (fun _ => 0) trackingRadio (9 : Byte) (fun _ => 0)).heap 0 = some device' ∧
          45 :: List.replicate 23 0 ∈ device'.sharedSecrets.map SharedSecret.value)
        ↔ @ReadsSecret LogRate byteCurve heardDevice 0 (9 : Byte) (45 :: List.replicate 23 0))) ∧
    let s := quietEvents.foldl (exchange fun _ => 0) (quietParty 6, quietParty 2)
    HoldSecret s.1 s.2 := by
  obtain ⟨hstep, hrun⟩ := changeEpoch_secret_iff (P := LogRate) byteCurve_laws fun _ => 0
  constructor
  · exact hstep id (fun _ => 0) trackingRadio (9 : Byte) (fun _ => 0) 0 heardDevice ⟨3, 0, 5 :: List.replicate 23 0⟩
      (5 : Byte) false (45 :: List.replicate 23 0) rfl (by decide) rfl rfl rfl rfl
  · exact hrun (quietParty 6) (quietParty 2) quietEvents (quietParty_ready 6) (quietParty_ready 2) rfl rfl
      quietEvents_fair rfl rfl

/-- The remote key that starts with 5 is read as an encoding with the invalid lead 5. -/
theorem changeEpoch_loses_secret :
    let r' := changeEpoch (fun _ => 0) id (fun _ => 0) trackingRadio (9 : Byte) (fun _ => 0)
    trackingRadio.confirmScheme.type.hasPassive = true ∧ 0 ∈ trackingRadio.deviceMap.idToDevice ∧
      trackingRadio.heap 0 = some heardDevice ∧ heardDevice.epochs.getLast? = some ⟨3, 0, 5 :: List.replicate 23 0⟩ ∧
      byteCurve.point2oct (5 : Byte) = 0x02 :: 5 :: List.replicate 23 0 ∧
      byteCurve.computeKey (5 : Byte) (9 : Byte) = some (45 :: List.replicate 23 0) ∧
      ¬∃ device', r'.heap 0 = some device' ∧
        45 :: List.replicate 23 0 ∈ device'.sharedSecrets.map SharedSecret.value := by
  refine ⟨rfl, by decide, rfl, rfl, rfl, rfl, ?_⟩
  rintro ⟨device', hdevice', hheld⟩
  obtain ⟨_, _, _, _, hheap⟩ := changeEpoch_fields (fun _ => 0) id (fun _ => 0) trackingRadio (9 : Byte) (fun _ => 0)
  rw [hheap rfl 0 (by decide) heardDevice rfl] at hdevice'
  cases hdevice'
  rcases (mem_changeEpochDevice 0 _ rfl rfl).mp hheld with hold | ⟨curEpoch, q, hepoch, hpoint, _⟩
  · cases hold
  · cases hepoch
    cases hpoint

end Sddr.Radio.EbNRadioBT2
