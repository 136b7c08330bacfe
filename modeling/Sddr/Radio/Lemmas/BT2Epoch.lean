import Sddr.Radio.Exchange
import Sddr.Radio.Lemmas.BT2
import Sddr.Radio.Lemmas.ECDH

/-!
# Secrets across the epochs of a BT2 radio

The first advert of a remote epoch and a change of the own epoch compute the same secret, as long as the latter reads
it right.
-/

namespace Sddr.Radio.EbNRadioBT2
open Sddr.Lib Sddr.Codec Sddr.Device BT2

variable {P : Type} [FloatOps P] {ec : Ec} {sha256 : List Byte → Digest} {r : EbNRadioBT2 P ec}

/-! ## Addresses -/

theorem yCoord_withPartial (y : Bool) (b c d : Byte) (rest : List Byte) :
    Address.yCoord (Address.withPartial (BitVec.ofNat 8 y.toNat <<< 5) 0x20 [b, c, d] ++ rest) = y := by
  have hbit : ∀ b : Byte, ∀ y : Bool,
      (((b &&& ~~~(0x20 : Byte)) ||| (BitVec.ofNat 8 y.toNat <<< 5 &&& 0x20)) &&& 0x20) >>> 5 = BitVec.ofNat 8 y.toNat := by
    decide +kernel
  unfold Address.yCoord Address.getPartialValue Address.withPartial
  dsimp only [List.dropLast, List.cons_append, List.nil_append]
  rw [List.getD_cons_zero, hbit]
  cases y <;> rfl

variable (sha256) in
theorem initializeRadio_fields (rand : Nat → Nat) (random : Nat → Byte) (r : EbNRadioBT2 P ec) :
    let r' := initializeRadio sha256 rand random r
    r'.dhExchange = r.dhExchange ∧ r'.toEbNRadio = r.toEbNRadio ∧
      r'.publicAddress.length = 6 ∧ Address.yCoord r'.publicAddress = r.dhExchange.getPublicY := by
  unfold initializeRadio changeAdvert
  dsimp only
  split_ifs
  · exact ⟨rfl, rfl, rfl, yCoord_withPartial _ _ _ _ _⟩
  · exact ⟨rfl, rfl, rfl, yCoord_withPartial _ _ _ _ _⟩

variable (sha256) in
theorem shiftEpoch_fields (rand : Nat → Nat) (r : EbNRadioBT2 P ec) (key : ec.Key) (random : Nat → Byte) :
    let r' := shiftEpoch sha256 rand r key random
    r'.dhExchange = ECDH.generateSecret key ∧ r'.toEbNRadio = r.toEbNRadio ∧
      r'.publicAddress = Address.shiftWithPartial r.publicAddress
        (BitVec.ofNat 8 (ECDH.generateSecret key).getPublicY.toNat <<< 5) 0x20 random := by
  unfold shiftEpoch changeAdvert
  dsimp only
  split_ifs <;> exact ⟨rfl, rfl, rfl⟩

variable (sha256) in
/-- All that an epoch change leaves to later steps. -/
theorem changeEpoch_fields (rand : Nat → Nat) (next : DeviceID → Byte) (r : EbNRadioBT2 P ec) (key : ec.Key)
    (random : Nat → Byte) :
    let r' := changeEpoch sha256 rand next r key random
    r'.dhExchange = ECDH.generateSecret key ∧ r'.confirmScheme = r.confirmScheme ∧ r'.deviceMap = r.deviceMap ∧
      r'.publicAddress = Address.shiftWithPartial r.publicAddress
        (BitVec.ofNat 8 (ECDH.generateSecret key).getPublicY.toNat <<< 5) 0x20 random ∧
      (r.confirmScheme.type.hasPassive = true → ∀ id ∈ r.deviceMap.idToDevice, ∀ device, r.heap id = some device →
        r'.heap id = some ((shiftEpoch sha256 rand r key random).changeEpochDevice (next id) device)) := by
  obtain ⟨hexchange, hbase, haddress⟩ := shiftEpoch_fields sha256 rand r key random
  dsimp only [changeEpoch]
  rw [hbase]
  refine ⟨hexchange, rfl, rfl, haddress, fun hpassive id hid device hdevice => ?_⟩
  rw [if_pos hpassive, if_pos hid, hdevice]
  rfl

/-! ## A change of epoch -/

/-- The secret is held afterwards exactly when the bytes that are read stand for it. -/
theorem mem_changeEpochDevice {device : EbNDeviceBT2 P} {curEpoch : Epoch} (next : Byte) (v : LinkValue)
    (hepoch : device.epochs.getLast? = some curEpoch) (hlength : curEpoch.dhRemotePublic.length = ec.keySize / 8) :
    v ∈ values (r.changeEpochDevice next device).sharedSecrets ↔ ReadsSecret device next r.dhExchange.secret v := by
  have hread : (curEpoch.dhRemotePublic ++ [next]).length = ec.keySize / 8 + 1 := by
    rw [List.length_append, hlength, List.length_singleton]
  unfold ReadsSecret changeEpochDevice
  rw [hepoch]
  dsimp only
  rw [ECDH.computeSharedSecret_octets _ _ hread]
  cases hpoint : ec.oct2point (curEpoch.dhRemotePublic ++ [next]) with
  | none =>
      rw [Option.bind_none]
      refine ⟨Or.inl, fun h => h.elim id ?_⟩
      rintro ⟨e, q, he, hq, _⟩
      cases he
      rw [hpoint] at hq
      cases hq
  | some q =>
      rw [Option.bind_some]
      cases hkey : ec.computeKey q r.dhExchange.secret with
      | none =>
          refine ⟨Or.inl, fun h => h.elim id ?_⟩
          rintro ⟨e, q', he, hq, hcomputed⟩
          cases he
          rw [hpoint] at hq
          cases hq
          rw [hkey] at hcomputed
          cases hcomputed
      | some value =>
          refine mem_addSharedSecret.trans (or_congr_right ⟨fun heq => ?_, ?_⟩)
          · exact ⟨curEpoch, q, rfl, hpoint, heq ▸ hkey⟩
          · rintro ⟨e, q', he, hq, hcomputed⟩
            cases he
            rw [hpoint] at hq
            cases hq
            rw [hkey] at hcomputed
            exact (Option.some.inj hcomputed).symm

theorem changeEpochDevice_epochs (next : Byte) (device : EbNDeviceBT2 P) :
    (r.changeEpochDevice next device).epochs = device.epochs := by
  unfold changeEpochDevice
  cases device.epochs.getLast? with
  | none => rfl
  | some curEpoch =>
      dsimp only
      cases r.dhExchange.computeSharedSecret (SharedSecret.ofConfirmed (P := P) (r.confirmScheme.type = .None))
          (Mem.ofList (curEpoch.dhRemotePublic ++ [next])) <;> rfl

/-! ## A reception -/

omit [FloatOps P] in
theorem getLast?_pastErased (epochs : List Epoch) : (pastErased epochs).getLast? = epochs.getLast? := by
  induction epochs with
  | nil => rfl
  | cons e rest ih =>
      cases rest with
      | nil => rfl
      | cons e' rest => exact ih.trans (List.getLast?_cons_cons).symm

variable (sha256 r) in
theorem applyBloom_values (device : EbNDeviceBT2 P) (advert : BitMap) (n : Nat) (curEpoch : Epoch) (isNew : Bool) :
    values (applyBloom sha256 r device advert n curEpoch isNew).sharedSecrets = values device.sharedSecrets ∧
      (applyBloom sha256 r device advert n curEpoch isNew).epochs = device.epochs := by
  refine ⟨?_, rfl⟩
  unfold applyBloom
  dsimp only
  split_ifs
  · exact values_confirmPassiveDelta _ _ _ _ _ _
  · rfl

variable {sender : EbNRadioBT2 P ec} {rand : Nat → Nat} {n : Nat} {device : EbNDeviceBT2 P} {time : Time}

variable (sha256 rand n time device r) in
/-- An epoch that an advert opens stores the sender's key and computes the secret of both keys. -/
theorem openEpoch_secret (hlaws : ec.Laws) {key : ec.Key} (hkey : sender.dhExchange = ECDH.generateSecret key)
    (haddress : Address.yCoord device.address = sender.dhExchange.getPublicY) :
    let opened := r.openEpoch device time (BitMap.ofMem (240 * 8) (onAir sha256 rand sender n)) n true
    opened.2.epochs.getLast? = some opened.1 ∧
      opened.1.dhRemotePublic = sender.dhExchange.getPublicX.take (ec.keySize / 8) ∧
      ∀ v, ec.computeKey (ec.publicKey key) r.dhExchange.secret = some v → v ∈ values opened.2.sharedSecrets := by
  obtain ⟨hepoch, hepochs, _⟩ := openEpoch_received sender r n sha256 rand device time
  intro opened
  refine ⟨?_, congrArg Epoch.dhRemotePublic hepoch, fun v hv => ?_⟩
  · rw [hepochs, List.getLast?_concat]
  · have hsecret := ECDH.computeSharedSecretXY_public hlaws r.dhExchange
      (SharedSecret.ofConfirmed (P := P) (r.confirmScheme.type = .None)) (ECDH.publicKey_octets hlaws key).symm
    rw [hv, Option.map_some, ← hkey] at hsecret
    simp only [opened, openEpoch, readPublicX_received, if_true, haddress, hsecret]
    exact mem_addSharedSecret.mpr (Or.inr rfl)

variable (sha256 r rand time) in
/-- What a device holds after an advert of a sender: the secrets it held, and the last epoch unless a new one was
opened. -/
theorem receive_spec (hlaws : ec.Laws) {key : ec.Key} (hkey : sender.dhExchange = ECDH.generateSecret key)
    (haddress : Address.yCoord sender.publicAddress = sender.dhExchange.getPublicY) (hn : n < ADV_N)
    (device : EbNDeviceBT2 P) :
    let received := receive sha256 r device sender.publicAddress time (onAir sha256 rand sender n)
    (∀ v ∈ values device.sharedSecrets, v ∈ values received.sharedSecrets) ∧
      (classify device.epochs n time ≠ .isNew ∧ received.epochs.getLast? = device.epochs.getLast? ∨
        ∃ curEpoch, received.epochs.getLast? = some curEpoch ∧
          curEpoch.dhRemotePublic = sender.dhExchange.getPublicX.take (ec.keySize / 8) ∧
          ∀ v, ec.computeKey (ec.publicKey key) r.dhExchange.secret = some v → v ∈ values received.sharedSecrets) := by
  have hold : ∀ v ∈ values device.sharedSecrets, v ∈ values (r.openEpoch
      { device with toEbNDevice := device.setAddress sender.publicAddress } time
      (BitMap.ofMem (240 * 8) (onAir sha256 rand sender n)) n true).2.sharedSecrets := by
    intro v hv
    unfold openEpoch
    dsimp only
    rw [if_pos rfl]
    split
    · exact mem_addSharedSecret.mpr (Or.inl hv)
    · exact hv
  unfold receive processEpochs processAdvert
  dsimp only
  rw [readNumber_received hn, if_pos hn, getLast?_pastErased]
  cases hclass : classify device.epochs n time with
  | isDuplicate => exact ⟨fun v hv => hv, Or.inl ⟨by simp, rfl⟩⟩
  | current curEpoch =>
      obtain ⟨hvalues, hepochs⟩ := applyBloom_values sha256 r
        { device with toEbNDevice := device.setAddress sender.publicAddress }
        (BitMap.ofMem (240 * 8) (onAir sha256 rand sender n)) n curEpoch false
      refine ⟨fun v hv => ?_, Or.inl ⟨by simp, ?_⟩⟩
      · rw [hvalues]
        exact hv
      · rw [hepochs]
  | isNew =>
      obtain ⟨hlast, hX, hsecret⟩ := openEpoch_secret sha256 r rand n
        { device with toEbNDevice := device.setAddress sender.publicAddress } time hlaws hkey haddress
      refine ⟨fun v hv => ?_, Or.inr ⟨_, ?_, hX, fun v hv => ?_⟩⟩
      · rw [(applyBloom_values _ _ _ _ _ _ _).1]
        exact hold v hv
      · rw [(applyBloom_values _ _ _ _ _ _ _).2]
        exact hlast
      · rw [(applyBloom_values _ _ _ _ _ _ _).1]
        exact hsecret v hv

/-! ## Two parties -/

variable {self other : Party P ec}

theorem changeEpoch_knows (hself : self.Ready) (hknows : self.Knows other) {key : ec.Key} {rand : Nat → Nat}
    {random : Nat → Byte} {next : DeviceID → Byte} (hfair : (PartyEvent.changeEpoch key rand random next).Fair self other) :
    let self' : Party P ec := { self with radio := changeEpoch sha256 rand next self.radio key random }
    self'.Ready ∧ self'.Knows other := by
  obtain ⟨hexchange, hscheme, hmap, haddress, hheap⟩ :=
    changeEpoch_fields sha256 rand next self.radio key random
  obtain ⟨device, hdevice⟩ := hself.device
  have hdevice' := hheap hself.scheme self.peer hself.peer device hdevice
  have hshift := (shiftEpoch_fields sha256 rand self.radio key random).1
  refine ⟨⟨?_, ?_, ?_, ?_, ?_, ⟨_, hdevice'⟩⟩, fun hheard => ?_⟩
  · dsimp only
    rw [hexchange]
    rfl
  · dsimp only
    rw [haddress, Address.shiftWithPartial, hself.length]
    simp [Address.withPartial, hself.length, List.range_succ]
  · dsimp only
    rw [haddress, hexchange, Address.shiftWithPartial, hself.length]
    exact yCoord_withPartial _ _ _ _ _
  · dsimp only
    rw [hscheme]
    exact hself.scheme
  · dsimp only
    rw [hmap]
    exact hself.peer
  · obtain ⟨device₀, curEpoch, hdevice₀, hepoch, hX, _⟩ := hknows hheard
    rw [hdevice] at hdevice₀
    cases hdevice₀
    have hlength : curEpoch.dhRemotePublic.length = ec.keySize / 8 := by rw [hX, Mem.length_take]
    refine ⟨_, curEpoch, hdevice', ?_, hX, fun v hv => ?_⟩
    · rw [changeEpochDevice_epochs]
      exact hepoch
    · refine (mem_changeEpochDevice _ v hepoch hlength).mpr ?_
      dsimp only at hv
      rw [hexchange] at hv
      rw [hshift]
      exact hfair hheard device hdevice v hv

theorem hear_knows (hlaws : ec.Laws) (hself : self.Ready) (hother : other.Ready) (hknows : self.Knows other) {n : Nat}
    {time : Time} {rand : Nat → Nat} (hfair : (PartyEvent.hear n time rand).Fair self other) :
    ((PartyEvent.hear n time rand).apply sha256 self other).1.Ready ∧
      ((PartyEvent.hear n time rand).apply sha256 self other).1.Knows other := by
  obtain ⟨hn, hattributed⟩ := hfair
  obtain ⟨device, hdevice⟩ := hself.device
  obtain ⟨hkept, hcases⟩ := receive_spec sha256 self.radio rand time hlaws hother.key hother.yCoord hn device
  have hdevice' : ((PartyEvent.hear n time rand).apply sha256 self other).1.radio.heap self.peer
      = some (receive sha256 self.radio device other.radio.publicAddress time (onAir sha256 rand other.radio n)) := by
    simp only [PartyEvent.apply, if_true, hdevice, Option.map_some]
  refine ⟨⟨hself.key, hself.length, hself.yCoord, hself.scheme, hself.peer, ⟨_, hdevice'⟩⟩, fun _ => ?_⟩
  rcases hcases with ⟨hclass, hlast⟩ | ⟨curEpoch, hepoch, hX, hsecret⟩
  · cases hheard : self.heard with
    | false => exact absurd (hattributed hheard device hdevice) hclass
    | true =>
        obtain ⟨device₀, curEpoch, hdevice₀, hepoch, hX, hsecret⟩ := hknows hheard
        rw [hdevice] at hdevice₀
        cases hdevice₀
        exact ⟨_, curEpoch, hdevice', hlast.trans hepoch, hX, fun v hv => hkept v (hsecret v hv)⟩
  · exact ⟨_, curEpoch, hdevice', hepoch, hX, hsecret⟩

/-- Two radios that know of each other what they have heard. -/
structure Linked (s : Party P ec × Party P ec) : Prop where
  first : s.1.Ready
  second : s.2.Ready
  knows : s.1.Knows s.2
  known : s.2.Knows s.1

theorem apply_linked (hlaws : ec.Laws) (h : Linked (self, other)) {event : PartyEvent ec} (hfair : event.Fair self other) :
    Linked (event.apply sha256 self other) := by
  obtain ⟨hself, hother, hknows, hknown⟩ := h
  cases event with
  | changeEpoch key rand random next =>
      obtain ⟨hself', hknows'⟩ := changeEpoch_knows hself hknows hfair
      exact ⟨hself', ⟨hother.key, hother.length, hother.yCoord, hother.scheme, hother.peer, hother.device⟩, hknows',
        fun hheard => by cases hheard⟩
  | hear n time rand =>
      obtain ⟨hself', hknows'⟩ := hear_knows hlaws hself hother hknows hfair
      exact ⟨hself', hother, hknows', hknown⟩

theorem exchange_linked (hlaws : ec.Laws) {s : Party P ec × Party P ec} (h : Linked s) {event : Bool × PartyEvent ec}
    (hfair : if event.1 then event.2.Fair s.1 s.2 else event.2.Fair s.2 s.1) : Linked (exchange sha256 s event) := by
  obtain ⟨side, event⟩ := event
  cases side with
  | true => exact apply_linked hlaws h hfair
  | false =>
      obtain ⟨hfirst, hsecond, hknows, hknown⟩ := apply_linked hlaws ⟨h.second, h.first, h.known, h.knows⟩ hfair
      exact ⟨hsecond, hfirst, hknown, hknows⟩

theorem fairRun_linked (hlaws : ec.Laws) (events : List (Bool × PartyEvent ec)) {s : Party P ec × Party P ec}
    (h : Linked s) (hfair : FairRun sha256 s events) : Linked (events.foldl (exchange sha256) s) := by
  induction events generalizing s with
  | nil => exact h
  | cons event events ih => exact ih (exchange_linked hlaws h hfair.1) hfair.2

omit [FloatOps P] in
theorem Linked.holdSecret (hlaws : ec.Laws) {s : Party P ec × Party P ec} (h : Linked s) (hfirst : s.1.heard = true)
    (hsecond : s.2.heard = true) : HoldSecret s.1 s.2 := by
  obtain ⟨v, hv⟩ := Option.isSome_iff_exists.mp
    (hlaws.computeKey_isSome s.2.radio.dhExchange.secret s.1.radio.dhExchange.secret)
  have hv' := (hlaws.computeKey_symm s.1.radio.dhExchange.secret s.2.radio.dhExchange.secret).trans hv
  obtain ⟨device, _, hdevice, _, _, hsecret⟩ := h.knows hfirst
  obtain ⟨device', _, hdevice', _, _, hsecret'⟩ := h.known hsecond
  refine ⟨v, hv, fun p hp => ?_⟩
  rcases List.mem_pair.mp hp with rfl | rfl
  · exact ⟨device, hdevice, hsecret v hv⟩
  · exact ⟨device', hdevice', hsecret' v hv'⟩

end Sddr.Radio.EbNRadioBT2
