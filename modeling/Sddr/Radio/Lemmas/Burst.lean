import Sddr.Radio.Lemmas.Filters
import Sddr.Radio.Lemmas.Tracking
import Sddr.Radio.Lemmas.Window

/-!
# The first adverts of an epoch, heard at one time

A receiver in the Hybrid scheme that decodes the sender's key with the last of them.
-/

namespace Sddr.Radio.EbNRadioBT4
open Sddr.Lib Sddr.Codec Sddr.Device Sddr.Erasure BT4

variable {P : Type} [FloatOps P] {ec : Ec} {sha256 : List Byte → Digest} {g : Galois} {device : EbNDevice P}

theorem processBlooms_silent (r : EbNRadioBT4 P ec) (X : List Byte) (decodeBloomNum lastNum : Nat)
    (blooms : List (Nat × SegmentedBloomFilter P)) (h : device.sharedSecrets = []) :
    (processBlooms sha256 r X decodeBloomNum lastNum blooms device).2.sharedSecrets = [] := by
  induction blooms generalizing device with
  | nil => exact h
  | cons bloom blooms ih =>
      have hfirst : (processBloom sha256 r X decodeBloomNum bloom.1 bloom.2 device).2.sharedSecrets = [] := by
        unfold processBloom
        dsimp only
        split_ifs
        · simp [EbNDevice.confirmPassiveDelta, EbNDevice.updateMatchingDelta, h]
        · exact h
        · exact h
      rw [processBlooms]
      split_ifs
      · exact ih hfirst
      · exact ih hfirst

/-- With active confirmation an epoch is decoded without a secret. -/
theorem processEpoch_silent {r : EbNRadioBT4 P ec} (hactive : r.confirmScheme.type.hasActive = true)
    (e : Epoch P ec) (h : device.sharedSecrets = []) :
    (processEpoch sha256 g r e device).2.sharedSecrets = [] := by
  have hdecode : (decodeEpoch g r e device).2 = device := by
    unfold decodeEpoch
    simp only [hactive, if_true]
    split
    · cases e.dhDecoder.decode g with
      | mk result dhDecoder =>
          cases result with
          | none => rfl
          | some X => rfl
    · rfl
  unfold processEpoch
  dsimp only
  rw [hdecode]
  split
  · exact processBlooms_silent r _ _ _ _ h
  · exact h

variable (sha256 g) in
/-- A step while the device has one epoch. -/
theorem step_advert_single {t : Track P ec} {time : Time} {data : Mem} {e : Epoch P ec} {keys : List (ECDH ec)}
    (hepochs : (t.radio.processAdvert t.target time data).2.epochs = [e])
    (hkeys : (t.epochs.map Tracked.keys ++ [[t.radio.dhExchange]]).head? = some keys) :
    t.step sha256 g (.advert time data) = { t with
      epochs := [⟨(processEpoch sha256 g t.radio e t.device).1, keys⟩]
      device := (processEpoch sha256 g t.radio e t.device).2 } := by
  obtain ⟨rest, hcons⟩ := List.head?_eq_some_iff.mp hkeys
  rw [Track.step, hepochs, hcons]
  simp [trackEpochsFrom]

variable {parts : List Part} {plans : Nat → EpochPlan P ec} {sender : EbNRadioBT4 P ec}

/-- A receiver `r` at advert `n` of a sender's first adverts, which are all heard at one time. The advert is received by the
device's only epoch. -/
structure Burst (sha256 : List Byte → Digest) (g : Galois) (parts : List Part) (plans : Nat → EpochPlan P ec)
    (sender r : EbNRadioBT4 P ec) (device : EbNDevice P) (time : Time) (n : Nat) (t : Track P ec) (e : Epoch P ec) :
    Prop where
  radio : t.radio = r
  received : (t.radio.processAdvert t.target time (Mem.ofList (epochAdvert sha256 g plans sender 0 n))).2.epochs = [e]
  keys : (t.epochs.map Tracked.keys ++ [[t.radio.dhExchange]]).head? = some [r.dhExchange]
  gathers : GathersOf sha256 g parts plans sender 0 (n + 1) (n + 1) e
  lastAdvertNum : e.lastAdvertNum ≤ n
  lastAdvertTime : e.lastAdvertTime = time
  dhExchanges : e.dhExchanges = [r.dhExchange]
  yCoord : e.dhExchangeYCoord = device.address.yCoord
  device : t.device = device

variable (hvalues : ConfirmValues P) (hcode : Code g P ec parts) (hsender : Reachable sha256 g sender)

include hvalues hcode hsender

variable (plans device) in
theorem burst_start {r : EbNRadioBT4 P ec} (hr : Built g parts r) (time : Time) :
    ∃ e, Burst sha256 g parts plans sender r device time 0 ⟨r, device, [], []⟩ e := by
  have hADV := symbols_per_epoch hvalues ec
  obtain ⟨_, _, hK4, _⟩ := size_facts hvalues ec
  obtain ⟨hnumber, hsymbol, -⟩ := advert_symbols plans hvalues hcode hsender 0 0 (by omega)
  have hadvert := processAdvert_epochs r { device with epochs := [] } time hnumber (by omega)
  have hqs := codeOf_epoch plans hvalues hcode hsender 0
  exact ⟨_, rfl, congrArg EbNDeviceBT4.epochs hadvert, rfl,
    (Gathers.new hcode hqs 0 time r.dhExchange device.address.yCoord hr).setSymbol hcode hqs (Nat.le_refl 0) hsymbol rfl,
    Nat.le_refl 0, rfl, rfl, rfl, rfl⟩

variable {r : EbNRadioBT4 P ec} {time : Time} {n : Nat} {t : Track P ec} {e : Epoch P ec}

theorem Burst.next (h : Burst sha256 g parts plans sender r device time n t e) (hn : n + 1 < RS_K P ec) :
    ∃ e', Burst sha256 g parts plans sender r device time (n + 1)
      (t.step sha256 g (.advert time (Mem.ofList (epochAdvert sha256 g plans sender 0 n)))) e' := by
  have hADV := symbols_per_epoch hvalues ec
  have hqs := codeOf_epoch plans hvalues hcode hsender 0
  obtain ⟨hnumber, hsymbol, -⟩ := advert_symbols plans hvalues hcode hsender 0 (n + 1) (by omega)
  rw [step_advert_single sha256 g h.received h.keys, (h.gathers.waits hn).processEpoch sha256 g t.radio t.device]
  have hclass : classify [e] (n + 1) time = .current e := by
    unfold classify
    rw [List.getLast?_singleton]
    dsimp only
    rw [h.lastAdvertTime, if_neg (by have := h.lastAdvertNum; omega), if_pos]
    refine ⟨Nat.lt_succ_of_le h.lastAdvertNum, ?_⟩
    simp only [BitVec.sub_self, SCAN_INTERVAL]
    change 0 < _
    omega
  have hadvert := processAdvert_epochs t.radio { t.device with epochs := [e] } time hnumber (by omega)
  rw [hclass] at hadvert
  exact ⟨_, h.radio, congrArg EbNDeviceBT4.epochs hadvert, rfl,
    h.gathers.setSymbol hcode hqs (Nat.le_refl (n + 1)) hsymbol rfl, Nat.le_succ_of_le h.lastAdvertNum,
    h.lastAdvertTime, h.dhExchanges, h.yCoord, h.device⟩

variable (plans device) in
theorem burst_run (hr : Built g parts r) (time : Time) (hn : n < RS_K P ec) :
    ∃ e, Burst sha256 g parts plans sender r device time n
      (((List.range n).map fun n => .advert time (Mem.ofList (epochAdvert sha256 g plans sender 0 n))).foldl
        (Track.step sha256 g) ⟨r, device, [], []⟩) e := by
  induction n with
  | zero => exact burst_start device plans hvalues hcode hsender hr time
  | succ n ih =>
      obtain ⟨e, he⟩ := ih (by omega)
      rw [List.range_succ, List.map_append, List.foldl_append]
      exact he.next hvalues hcode hsender hn

/-- The last advert of the burst decodes the sender's key, and in the Hybrid scheme the device then holds no secret. -/
theorem Burst.last (h : Burst sha256 g parts plans sender r device time n t e) (hn : n + 1 = RS_K P ec)
    (hactive : r.confirmScheme.type.hasActive = true) (hsilent : device.sharedSecrets = []) :
    let t' := t.step sha256 g (.advert time (Mem.ofList (epochAdvert sha256 g plans sender 0 n)))
    t'.device.sharedSecrets = [] ∧ ∃ e', t'.epochs = [⟨e', [r.dhExchange]⟩] ∧ e'.dhDecoder.isDecoded = true ∧
      e'.dhDecoder.data = (epochSender sha256 g plans sender 0).publicBlock ∧
        e'.dhExchangeYCoord = device.address.yCoord := by
  obtain ⟨hdecoded, hdata⟩ := h.gathers.processEpoch_done sha256 hvalues (codeOf_epoch plans hvalues hcode hsender 0)
    (by omega) (by unfold symbolCount; omega) t.radio t.device
  have hsame : SameEpoch e (processEpoch sha256 g t.radio e t.device).1 := (processEpoch_decoder t.radio e t.device).1
  rw [← h.radio] at hactive
  rw [step_advert_single sha256 g h.received h.keys]
  exact ⟨processEpoch_silent hactive e (h.device ▸ hsilent), _, rfl, hdecoded, hdata, hsame.dhExchangeYCoord.trans h.yCoord⟩

variable (plans device) in
theorem burst_decodes (hr : Built g parts r) (hactive : r.confirmScheme.type.hasActive = true) (time : Time)
    (hsilent : device.sharedSecrets = []) :
    let t := ((List.range (RS_K P ec)).map fun n =>
      TrackEvent.advert time (Mem.ofList (epochAdvert sha256 g plans sender 0 n))).foldl (Track.step sha256 g)
        ⟨r, device, [], []⟩
    t.device.sharedSecrets = [] ∧ ∃ e, t.epochs = [⟨e, [r.dhExchange]⟩] ∧ e.dhDecoder.isDecoded = true ∧
      e.dhDecoder.data = (epochSender sha256 g plans sender 0).publicBlock ∧
      e.dhExchangeYCoord = device.address.yCoord := by
  obtain ⟨_, _, hK4, _⟩ := size_facts hvalues ec
  obtain ⟨n, hn⟩ : ∃ n, RS_K P ec = n + 1 := ⟨RS_K P ec - 1, by omega⟩
  obtain ⟨e, h⟩ := burst_run device plans hvalues hcode hsender hr time (show n < RS_K P ec by omega)
  rw [hn, List.range_succ, List.map_append, List.foldl_append]
  exact h.last hvalues hcode hsender hn.symm hactive hsilent

/-! ## With the secret of the sender's key -/

/-- Only the last advert decodes the key, and then its secret is held. -/
theorem Burst.fair (h : Burst sha256 g parts plans sender r device time n t e) (hn : n < RS_K P ec)
    (hheld : HoldsSecrets device [r.dhExchange] (epochSender sha256 g plans sender 0).publicBlock device.address.yCoord) :
    (TrackEvent.advert time (Mem.ofList (epochAdvert sha256 g plans sender 0 n))).Fair g t := by
  intro _ e' he' _ X hX
  rw [h.received, List.mem_singleton] at he'
  subst he'
  rw [h.device, h.dhExchanges, h.yCoord]
  rcases Nat.lt_or_eq_of_le hn with hlt | hlast
  · obtain ⟨hundecoded, hcan⟩ := h.gathers.waits hlt
    rw [RSErasureDecoder.decode, hundecoded, hcan] at hX
    cases hX
  · obtain ⟨S, hcard, hS, hinv⟩ := h.gathers.decoder
    obtain ⟨_, _, hK4, _⟩ := size_facts hvalues ec
    obtain ⟨-, hdecoded⟩ := hinv.decode (by omega) (codeOf_epoch plans hvalues hcode hsender 0)
      fun i hi => Nat.lt_of_lt_of_le (hS i hi) (by omega)
    rw [hdecoded (by omega)] at hX
    cases hX
    exact hheld

theorem Burst.fairTrack (count : Nat) (h : Burst sha256 g parts plans sender r device time n t e)
    (hn : n + count = RS_K P ec)
    (hheld : HoldsSecrets device [r.dhExchange] (epochSender sha256 g plans sender 0).publicBlock device.address.yCoord) :
    FairTrack sha256 g t
      ((List.range' n count).map fun n => .advert time (Mem.ofList (epochAdvert sha256 g plans sender 0 n))) := by
  induction count generalizing n t e with
  | zero => trivial
  | succ count ih =>
      refine ⟨h.fair hvalues hcode hsender (by omega) hheld, ?_⟩
      rcases Nat.eq_zero_or_pos count with rfl | hmore
      · trivial
      · obtain ⟨e', h'⟩ := h.next hvalues hcode hsender (by omega)
        exact ih h' (by omega)

end Sddr.Radio.EbNRadioBT4
