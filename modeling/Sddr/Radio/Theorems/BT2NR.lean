import Sddr.Radio.Lemmas.BT2NRContacts

/-! # Main results about the BT2NR radio -/

namespace Sddr.Radio.EbNRadioBT2NR
open Sddr.Lib Sddr.Codec Sddr.Device
open BinaryToUTF8 (NAME_DECODED_SIZE)

variable {P : Type} [FloatOps P] {ec : Ec}

/-! ## Handshakes -/

/-- A handshake asks the devices for their names in the order of their ids, until one has no turn any more. It has a result
if and only if there is a byte behind the advert, or no name that it gets has the length of one. Then each device that had
its turn is changed by its own name only, the others stay, and those returned are the confirmed ones with a turn. -/
theorem handshake_requests (sha256 : List Byte → Digest) (slack : List Byte)
    (names : DeviceID → Option (Option (List Byte))) (r : EbNRadioBT2NR P ec) (h : EbNRadio.Tidy r.toEbNRadio)
    (deviceIDs : Finset DeviceID) (hids : ∀ id ∈ deviceIDs, id ∈ r.deviceMap.idToDevice) :
    let requested := (deviceIDs.sort (· ≤ ·)).takeWhile fun id => (names id).isSome
    ((r.handshake sha256 slack names deviceIDs).isSome ↔
        slack ≠ [] ∨ ∀ id ∈ requested, ∀ remoteName, names id = some (some remoteName) →
          BinaryToUTF8.getNumEncodedBits NAME_DECODED_SIZE ≠ remoteName.length * 8) ∧
      ∀ encountered r', r.handshake sha256 slack names deviceIDs = some (encountered, r') →
        (∀ id ∈ requested, ∃ remoteName advert, names id = some remoteName ∧ readName slack remoteName = some advert ∧
          r'.heap id = (r.heap id).map fun d => ((r.requestEffect sha256 advert).run d).setShakenHands true) ∧
        (∀ id, id ∉ requested → r'.heap id = r.heap id) ∧
        ∀ id, id ∈ encountered ↔
          id ∈ r.deviceMap.idToDevice ∧ (r'.baseAt id).shakenHands = true ∧ (r'.baseAt id).confirmed = true := by
  intro requested
  have hrequested : (deviceIDs.sort (· ≤ ·)).takeWhile (fun id => (nameEffect sha256 slack r names id).isSome)
      = requested := by
    simp only [nameEffect, Option.isSome_map, requested]
  obtain ⟨r₁, hloop, htidy, hmap, hchanged, hothers⟩ :=
    shakeHands_heap h (nameEffect sha256 slack r names) (deviceIDs.sort (· ≤ ·)) (deviceIDs.sort_nodup (· ≤ ·))
      fun id hid => hids id ((Finset.mem_sort _).mp hid)
  rw [hrequested] at hchanged hothers
  constructor
  · rw [handshake, Option.isSome_map, ← readable_iff, Option.isSome_iff_exists]
    simp only [requestNames_eq_some_iff, hloop, Option.some_inj, exists_and_left, exists_eq', and_true]
  · intro encountered r' hresult
    obtain ⟨base, hnames, hpair⟩ := Option.map_eq_some_iff.mp hresult
    obtain ⟨rfl, rfl⟩ := Prod.mk.inj hpair
    obtain ⟨hreadable, hbase⟩ := (requestNames_eq_some_iff ..).mp hnames
    obtain rfl : r₁ = base := Option.some.inj (hloop.symm.trans hbase)
    refine ⟨fun id hid => ?_, hothers, fun id => ?_⟩
    · have hasked : (names id).isSome = true := List.mem_takeWhile_imp (p := fun id => (names id).isSome) hid
      obtain ⟨remoteName, hname⟩ := Option.isSome_iff_exists.mp hasked
      obtain ⟨advert, hread⟩ := Option.isSome_iff_exists.mp (hreadable id hid remoteName hname)
      refine ⟨remoteName, advert, hname, hread, hchanged id hid _ ?_⟩
      rw [nameEffect, hname, Option.map_some, hread]
      rfl
    · rw [htidy.mem_encountered, hmap]

/-- A radio that has discovered nobody yet. -/
def namedRadio (key : Byte) : EbNRadioBT2NR LogRate byteCurve :=
  { EbNRadio.new ⟨.None, none⟩ .Standard 0 with
    dhExchange := ECDH.generateSecret key, publicAddress := List.replicate 6 0, localName := [], scheme := rfl }

/-- A radio that has discovered a device, which answers with the name of another radio. -/
theorem handshake_requests_single :
    let radio : EbNRadio LogRate (EbNDevice LogRate) :=
      { (namedRadio 2).toEbNRadio with
        heap := Function.update (fun _ => none) 0 (some (.new 0 [1] []))
        deviceMap := ⟨UMap.insertNew ∅ [1] 0, UMap.insertNew ∅ 0 0⟩
        nextDeviceID := 1 }
    let r : EbNRadioBT2NR LogRate byteCurve := { namedRadio 2 with toEbNRadio := radio, scheme := rfl }
    let names : DeviceID → Option (Option (List Byte)) :=
      fun _ => some (some (changeAdvert (fun _ => 0) id (namedRadio 3)).localName)
    let requested := (({0} : Finset DeviceID).sort (· ≤ ·)).takeWhile fun id => (names id).isSome
    ((r.handshake (fun _ => 0) [7] names {0}).isSome ↔
        ([7] : List Byte) ≠ [] ∨ ∀ id ∈ requested, ∀ remoteName, names id = some (some remoteName) →
          BinaryToUTF8.getNumEncodedBits NAME_DECODED_SIZE ≠ remoteName.length * 8) ∧
      ∀ encountered r', r.handshake (fun _ => 0) [7] names {0} = some (encountered, r') →
        (∀ id ∈ requested, ∃ remoteName advert, names id = some remoteName ∧ readName [7] remoteName = some advert ∧
          r'.heap id = (r.heap id).map fun d => ((r.requestEffect (fun _ => 0) advert).run d).setShakenHands true) ∧
        (∀ id, id ∉ requested → r'.heap id = r.heap id) ∧
        ∀ id, id ∈ encountered ↔
          id ∈ r.deviceMap.idToDevice ∧ (r'.baseAt id).shakenHands = true ∧ (r'.baseAt id).confirmed = true := by
  intro radio r names
  have hnew : EbNRadio.Tidy (namedRadio 2).toEbNRadio := (EbNRadio.new_sound _ _ _).toTidy
  obtain ⟨device, found, hfound, hlocated⟩ := hnew.deviceAt (fun _ => 0) ⟨1, id, fun _ => .refl _⟩ [1]
  have hradio : (0, radio) = (device, found) := Option.some.inj hfound
  obtain ⟨rfl, rfl⟩ := Prod.mk.inj hradio
  exact handshake_requests (fun _ => 0) [7] names r hlocated.tidy {0}
    fun id hid => Finset.mem_singleton.mp hid ▸ hlocated.mem

/-! ## Two radios -/

/-- A run of two radios has a result if and only if there is a byte behind the advert, or no request is answered. Then no
device loses a link value that it listens for and that the other radio always advertises, and each secret it has is that of a
key of the one radio and a key of the other. -/
theorem contact_knows (sha256 : List Byte → Digest) (slack : List Byte) {carry : List Byte → List Byte} (hlaws : ec.Laws)
    (hcarry : Carries carry) {a b : Contact P ec} {listenSet listenSet' : List LinkValue} (ha : a.Begins sha256 listenSet)
    (hb : b.Begins sha256 listenSet') (events : List (Bool × ContactEvent P ec)) :
    let run := events.foldlM (exchange sha256 slack carry) (a, b)
    let keys := a.keys (eventsAt true events)
    let keys' := b.keys (eventsAt false events)
    (run.isSome ↔ slack ≠ [] ∨ ∀ event ∈ events, event.2 ≠ .request true) ∧
      ∀ s ∈ run, Knows listenSet keys keys' (b.sets (eventsAt false events)) s.1.device ∧
        Knows listenSet' keys' keys (a.sets (eventsAt true events)) s.2.device := by
  intro run keys keys'
  refine ⟨Ready.run_isSome_iff hcarry ⟨ha.ready, hb.ready⟩ events, fun s hs => ?_⟩
  have hends := End.run hlaws hcarry (s := (a, b)) (ha.end (eventsAt true events))
    (hb.end (eventsAt false events)) (fun event hevent => ?_) hs
  · exact ⟨hends.1.knows, hends.2.knows⟩
  · have hat := mem_eventsAt hevent
    obtain ⟨first, event⟩ := event
    cases first with
    | true => exact ⟨fun _ hkey => mem_keys hat hkey, fun _ hset => mem_sets hat hset⟩
    | false => exact ⟨fun _ hkey => mem_keys hat hkey, fun _ hset => mem_sets hat hset⟩

/-- An adapter that cuts a name off behind its last byte, and before a 0. -/
def cutName (name : List Byte) : List Byte := (name.take 247).takeWhile (· ≠ 0)

theorem cutName_carries : Carries cutName := by
  intro name hlength hzero
  have hwhole : name.take 247 = name := List.take_of_length_le (Nat.le_of_lt_succ hlength)
  rw [cutName, hwhole, List.takeWhile_eq_self_iff]
  exact fun b hb => decide_eq_true (ne_of_mem_of_not_mem hb hzero)

/-- A radio that has set its name, and another one that it has just discovered. -/
def namedContact (key : Byte) : Contact LogRate byteCurve :=
  ⟨changeAdvert (fun _ => 0) id (namedRadio key), .new 0 (List.replicate 6 0) [[1]]⟩

theorem namedContact_begins (key : Byte) : (namedContact key).Begins (fun _ => 0) [[1]] := by
  have hnew : new ⟨.None, none⟩ .Standard 0 key (List.replicate 6 0) [] = some (namedRadio key) := dif_pos rfl
  exact ⟨⟨id, namedRadio key, .new hnew, rfl⟩, 0, List.replicate 6 0, rfl⟩

/-- Each requests the name of the other, and the first one changes its key in between. -/
theorem contact_knows_bytes :
    let events : List (Bool × ContactEvent LogRate byteCurve) :=
      [(true, .request true), (true, .act (.changeEpoch id (5 : Byte) fun _ => 0)), (false, .request true)]
    let run := events.foldlM (exchange (fun _ => 0) [7] cutName) (namedContact 2, namedContact 3)
    let keys := (namedContact 2).keys (eventsAt true events)
    let keys' := (namedContact 3).keys (eventsAt false events)
    (run.isSome ↔ ([7] : List Byte) ≠ [] ∨ ∀ event ∈ events, event.2 ≠ .request true) ∧
      ∀ s ∈ run, Knows [[1]] keys keys' ((namedContact 3).sets (eventsAt false events)) s.1.device ∧
        Knows [[1]] keys' keys ((namedContact 2).sets (eventsAt true events)) s.2.device :=
  contact_knows (fun _ => 0) [7] byteCurve_laws cutName_carries (namedContact_begins 2) (namedContact_begins 3) _

/-- A run in which two radios have requested each other's name since the last change of a key has a result if and only if
there is a byte behind the advert, and then they hold a common confirmed secret, that of their present keys. -/
theorem contact_agrees (sha256 : List Byte → Digest) (slack : List Byte) {carry : List Byte → List Byte} (hlaws : ec.Laws)
    (hcarry : Carries carry) {a b : Contact P ec} {listenSet listenSet' : List LinkValue} (ha : a.Begins sha256 listenSet)
    (hb : b.Begins sha256 listenSet') (before after : List (Bool × ContactEvent P ec))
    (hkeys : ∀ event ∈ after, event.2.newKey? = none) (hrequests : ∀ first, (first, .request true) ∈ after) :
    let run := (before ++ after).foldlM (exchange sha256 slack carry) (a, b)
    (run.isSome ↔ slack ≠ []) ∧
      ∀ s ∈ run, s.1.device.confirmed = true ∧ s.2.device.confirmed = true ∧
        ∃ value, ec.computeKey (ec.publicKey s.2.radio.dhExchange.secret) s.1.radio.dhExchange.secret = some value ∧
          value ∈ confirmedValues s.1.device.sharedSecrets ∧ value ∈ confirmedValues s.2.device.sharedSecrets := by
  intro run
  constructor
  · rw [Ready.run_isSome_iff hcarry ⟨ha.ready, hb.ready⟩ (before ++ after)]
    exact or_iff_left fun hnone => hnone _ (List.mem_append_right before (hrequests true)) rfl
  · intro s hs
    have hready := Ready.run ⟨ha.ready, hb.ready⟩ hs
    obtain ⟨s₁, hbefore, hafter⟩ := Option.bind_eq_some_iff.mp (List.foldlM_append.symm.trans hs)
    obtain ⟨hshared, hshared'⟩ := Shared.run hlaws hcarry (Ready.run ⟨ha.ready, hb.ready⟩ hbefore) hkeys hafter
    obtain ⟨value, hvalue, hmem⟩ := hshared (Or.inl (hrequests true))
    obtain ⟨value', hvalue', hmem'⟩ := hshared' (Or.inl (hrequests false))
    obtain rfl : value' = value := by
      rw [hlaws.computeKey_symm, hvalue] at hvalue'
      exact (Option.some.inj hvalue').symm
    exact ⟨hready.1.confirmed hmem, hready.2.confirmed hmem', value', hvalue, hmem, hmem'⟩

/-- The first radio has changed its key, and then each requests the name of the other. -/
theorem contact_agrees_bytes :
    let before : List (Bool × ContactEvent LogRate byteCurve) := [(true, .act (.changeEpoch id (5 : Byte) fun _ => 0))]
    let after : List (Bool × ContactEvent LogRate byteCurve) := [(true, .request true), (false, .request true)]
    let run := (before ++ after).foldlM (exchange (fun _ => 0) [7] cutName) (namedContact 2, namedContact 3)
    (run.isSome ↔ ([7] : List Byte) ≠ []) ∧
      ∀ s ∈ run, s.1.device.confirmed = true ∧ s.2.device.confirmed = true ∧
        ∃ value,
          byteCurve.computeKey (byteCurve.publicKey s.2.radio.dhExchange.secret) s.1.radio.dhExchange.secret
            = some value ∧
          value ∈ confirmedValues s.1.device.sharedSecrets ∧ value ∈ confirmedValues s.2.device.sharedSecrets := by
  intro before after
  refine contact_agrees (fun _ => 0) [7] byteCurve_laws cutName_carries (namedContact_begins 2) (namedContact_begins 3)
    before after ?_ ?_
  · simp [after, ContactEvent.newKey?]
  · simp [after]

end Sddr.Radio.EbNRadioBT2NR
