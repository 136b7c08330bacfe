import Mathlib.Data.List.ModifyLast
import Sddr.Device.Lemmas.Reports
import Sddr.Radio.Lemmas.BT4Epochs
import Sddr.Radio.Lemmas.ECDH
import Sddr.Radio.Tracking

/-!
# Secrets of the keys that were current

An epoch that is not decoded has queued all its keys. Decoding computes their secrets, unless active confirmation is
on, and every later key is computed at once.
-/

namespace Sddr.Radio.EbNRadioBT4
open Sddr.Lib Sddr.Codec Sddr.Device Sddr.Erasure BT4

variable {P : Type} [FloatOps P] {ec : Ec} {sha256 : List Byte → Digest} {g : Galois}

/-! ## Held secrets -/

variable {device device' : EbNDevice P} {keys keys' : List (ECDH ec)} {X : List Byte} {y : Bool}

omit [FloatOps P] in
theorem HoldsSecrets.mono (h : HoldsSecrets device keys X y)
    (hsub : ∀ v ∈ values device.sharedSecrets, v ∈ values device'.sharedSecrets) : HoldsSecrets device' keys X y :=
  fun p hp dhExchange hmem v hv => hsub v (h p hp dhExchange hmem v hv)

omit [FloatOps P] in
theorem HoldsSecrets.append (h : HoldsSecrets device keys X y) (h' : HoldsSecrets device keys' X y) :
    HoldsSecrets device (keys ++ keys') X y := by
  intro p hp dhExchange hmem
  rcases List.mem_append.mp hmem with hmem | hmem
  · exact h p hp dhExchange hmem
  · exact h' p hp dhExchange hmem

/-- One exchange with the remote key, if that is a key. -/
def addSecret (r : EbNRadioBT4 P ec) (X : List Byte) (y : Bool) (device : EbNDevice P) (dhExchange : ECDH ec) :
    EbNDevice P :=
  match dhExchange.computeSharedSecretXY (SharedSecret.ofConfirmed (r.confirmScheme.type = .None)) (Mem.ofList X) y with
  | some sharedSecret => device.addSharedSecret sharedSecret
  | none => device

theorem addSecret_changed (sha256 : List Byte → Digest) (r : EbNRadioBT4 P ec) (dhExchange : ECDH ec) :
    Changed sha256 device (addSecret r X y device dhExchange) := by
  unfold addSecret
  split
  · next sharedSecret _ => exact Changed.op (.addSharedSecret sharedSecret) device
  · exact Changed.refl device

theorem addSecret_holds (hlaws : ec.Laws) (r : EbNRadioBT4 P ec) (dhExchange : ECDH ec) :
    HoldsSecrets (addSecret r X y device dhExchange) [dhExchange] X y := by
  intro p hp dhExchange' hmem v hv
  rw [List.mem_singleton] at hmem
  subst hmem
  rw [addSecret, ECDH.computeSharedSecretXY_public hlaws dhExchange' _ hp, hv]
  exact mem_addSharedSecret.mpr (Or.inr rfl)

variable (sha256 device) in
theorem foldl_addSecret_changed (r : EbNRadioBT4 P ec) (dhExchanges : List (ECDH ec)) :
    Changed sha256 device (dhExchanges.foldl (addSecret r X y) device) := by
  induction dhExchanges generalizing device with
  | nil => exact .refl device
  | cons dhExchange rest ih => exact (addSecret_changed sha256 r dhExchange).trans (ih _)

theorem foldl_addSecret_holds (hlaws : ec.Laws) (r : EbNRadioBT4 P ec) (dhExchanges : List (ECDH ec)) :
    HoldsSecrets (dhExchanges.foldl (addSecret r X y) device) dhExchanges X y := by
  induction dhExchanges generalizing device with
  | nil =>
      intro p hp dhExchange hmem
      cases hmem
  | cons dhExchange rest ih =>
      have hfirst := (addSecret_holds hlaws r dhExchange : HoldsSecrets (addSecret r X y device dhExchange) _ X y)
      have hchanged := foldl_addSecret_changed (fun _ => 0) (addSecret r X y device dhExchange) r rest (X := X) (y := y)
      exact (hfirst.mono hchanged.keeps.1).append ih

/-! ## Processing -/

variable (sha256) in
theorem processBloom_changed (r : EbNRadioBT4 P ec) (X : List Byte) (decodeBloomNum bloomNum : Nat)
    (bloom : SegmentedBloomFilter P) (device : EbNDevice P) :
    Changed sha256 device (processBloom sha256 r X decodeBloomNum bloomNum bloom device).2 := by
  unfold processBloom
  dsimp only
  split_ifs
  · exact (Changed.op (.updateMatchingDelta _ _ _) device).trans (.op (.confirmPassiveDelta _ _ _ _) _)
  · exact .op (.updateMatchingDelta _ _ _) device
  · exact .refl device

variable (sha256) in
theorem processBlooms_changed (r : EbNRadioBT4 P ec) (X : List Byte) (decodeBloomNum lastNum : Nat)
    (blooms : List (Nat × SegmentedBloomFilter P)) (device : EbNDevice P) :
    Changed sha256 device (processBlooms sha256 r X decodeBloomNum lastNum blooms device).2 := by
  induction blooms generalizing device with
  | nil => exact .refl device
  | cons bloom blooms ih =>
      have hfirst := processBloom_changed sha256 r X decodeBloomNum bloom.1 bloom.2 device
      rw [processBlooms]
      split_ifs
      · exact hfirst.trans (ih _)
      · exact hfirst.trans (ih _)

theorem processEpoch_changed (r : EbNRadioBT4 P ec) (e : Epoch P ec) (device : EbNDevice P) :
    Changed sha256 (decodeEpoch g r e device).2 (processEpoch sha256 g r e device).2 := by
  unfold processEpoch
  dsimp only
  split
  · exact processBlooms_changed sha256 r _ _ _ _ _
  · exact .refl _

theorem decodeEpoch_changed (r : EbNRadioBT4 P ec) (e : Epoch P ec) (device : EbNDevice P) :
    Changed sha256 device (decodeEpoch g r e device).2 := by
  unfold decodeEpoch
  split
  · cases e.dhDecoder.decode g with
    | mk result dhDecoder =>
        cases result with
        | none => exact .refl device
        | some X =>
            dsimp only
            split_ifs
            · exact .refl device
            · exact foldl_addSecret_changed sha256 device r e.dhExchanges
  · exact .refl device

/-- The secrets of an epoch are complete, or its keys are queued. -/
structure Tracked.Sound (device : EbNDevice P) (t : Tracked P ec) : Prop where
  complete : t.Complete device
  pending : t.epoch.dhDecoder.isDecoded = false → t.keys = t.epoch.dhExchanges

omit [FloatOps P] in
theorem Tracked.Sound.mono {t : Tracked P ec} (h : t.Sound device)
    (hsub : ∀ v ∈ values device.sharedSecrets, v ∈ values device'.sharedSecrets) : t.Sound device' :=
  ⟨fun hdecoded => (h.complete hdecoded).mono hsub, h.pending⟩

/-- The same epoch, as far as its keys and its remote key are concerned. -/
structure SameSecrets (e e' : Epoch P ec) : Prop extends SameEpoch e e' where
  isDecoded : e'.dhDecoder.isDecoded = e.dhDecoder.isDecoded
  data : e'.dhDecoder.data = e.dhDecoder.data

omit [FloatOps P] in
theorem Tracked.Sound.congr {e e' : Epoch P ec} (h : Tracked.Sound device ⟨e, keys⟩) (hsame : SameSecrets e e') :
    Tracked.Sound device ⟨e', keys⟩ := by
  refine ⟨fun hdecoded => ?_, fun hundecoded => ?_⟩
  · show HoldsSecrets device keys e'.dhDecoder.data e'.dhExchangeYCoord
    rw [hsame.data, hsame.dhExchangeYCoord]
    exact h.complete (hsame.isDecoded.symm.trans hdecoded)
  · exact (h.pending (hsame.isDecoded.symm.trans hundecoded)).trans hsame.dhExchanges.symm

variable (g) in
/-- Where active confirmation is on, decoding adds no secrets, so they have to be there. -/
def EpochReady (r : EbNRadioBT4 P ec) (device : EbNDevice P) (e : Epoch P ec) : Prop :=
  r.confirmScheme.type.hasActive = true → e.dhDecoder.isDecoded = false →
    ∀ X ∈ (e.dhDecoder.decode g).1, HoldsSecrets device e.dhExchanges X e.dhExchangeYCoord

omit [FloatOps P] in
theorem decode_spec {d : RSErasureDecoder} (hundecoded : d.isDecoded = false) (hcan : d.canDecode = true) :
    ∃ X d', d.decode g = (some X, d') ∧ d'.isDecoded = true ∧ d'.data = X := by
  rw [RSErasureDecoder.decode, hundecoded, hcan]
  exact ⟨_, _, rfl, rfl, rfl⟩

theorem decodeEpoch_sound (hlaws : ec.Laws) (r : EbNRadioBT4 P ec) {t : Tracked P ec} (h : t.Sound device)
    (hready : EpochReady g r device t.epoch) :
    Tracked.Sound (decodeEpoch g r t.epoch device).2 ⟨(decodeEpoch g r t.epoch device).1, t.keys⟩ := by
  unfold decodeEpoch
  split
  · next hguard =>
      obtain ⟨hundecoded, hcan⟩ := Bool.and_eq_true_iff.mp hguard
      rw [Bool.not_eq_true'] at hundecoded
      obtain ⟨X, d', hdecode, hdecoded, hdata⟩ := decode_spec (g := g) hundecoded hcan
      rw [hdecode]
      refine ⟨fun _ => ?_, fun hfalse => ?_⟩
      · dsimp only
        rw [h.pending hundecoded, hdata]
        split_ifs with hactive
        · exact hready hactive hundecoded X (by rw [hdecode]; rfl)
        · exact foldl_addSecret_holds hlaws r t.epoch.dhExchanges
      · exact absurd (hdecoded.symm.trans hfalse) Bool.noConfusion
  · exact h

variable (sha256) in
theorem processEpoch_sound (hlaws : ec.Laws) (r : EbNRadioBT4 P ec) {t : Tracked P ec} (h : t.Sound device)
    (hready : EpochReady g r device t.epoch) :
    Tracked.Sound (processEpoch sha256 g r t.epoch device).2 ⟨(processEpoch sha256 g r t.epoch device).1, t.keys⟩ := by
  have hchanged : Changed sha256 _ (processEpoch sha256 g r t.epoch device).2 := processEpoch_changed r t.epoch device
  refine ((decodeEpoch_sound hlaws r h hready).mono hchanged.keeps.1).congr ?_
  obtain ⟨hsame, hdecoder⟩ := processEpoch_decoder r t.epoch device
  obtain ⟨hdecode, -⟩ := decodeEpoch_same g r t.epoch device
  exact ⟨⟨hsame.lastAdvertNum.trans hdecode.lastAdvertNum.symm, hsame.lastAdvertTime.trans hdecode.lastAdvertTime.symm,
    hsame.dhExchanges.trans hdecode.dhExchanges.symm, hsame.dhExchangeYCoord.trans hdecode.dhExchangeYCoord.symm⟩,
    congrArg RSErasureDecoder.isDecoded hdecoder, congrArg RSErasureDecoder.data hdecoder⟩

omit [FloatOps P] in
theorem EpochReady.mono {r : EbNRadioBT4 P ec} {e : Epoch P ec} (h : EpochReady g r device e)
    (hsub : ∀ v ∈ values device.sharedSecrets, v ∈ values device'.sharedSecrets) : EpochReady g r device' e :=
  fun hactive hundecoded X hX => (h hactive hundecoded X hX).mono hsub

variable (sha256) in
/-- The loop of `processEpochs`, with what it removes. -/
theorem trackEpochsFrom_sound (hlaws : ec.Laws) (r : EbNRadioBT4 P ec) (kept : Nat) {epochs : List (Tracked P ec)}
    (h : ∀ t ∈ epochs, t.Sound device) (hready : ∀ t ∈ epochs, EpochReady g r device t.epoch) :
    let processed := trackEpochsFrom sha256 g r kept epochs device
    Changed sha256 device processed.2.2 ∧ ∀ t ∈ processed.1 ++ processed.2.1, t.Sound processed.2.2 := by
  induction epochs generalizing kept device with
  | nil => exact ⟨.refl device, fun t ht => by cases ht⟩
  | cons t epochs ih =>
      have hfirst : Changed sha256 device (processEpoch sha256 g r t.epoch device).2 :=
        (decodeEpoch_changed r t.epoch device).trans (processEpoch_changed r t.epoch device)
      have hsound : Tracked.Sound _ _ := processEpoch_sound sha256 hlaws r (h t List.mem_cons_self)
        (hready t List.mem_cons_self)
      have hrest := fun kept => ih kept
        (fun t' ht' => (h t' (List.mem_cons_of_mem _ ht')).mono hfirst.keeps.1)
        (fun t' ht' => (hready t' (List.mem_cons_of_mem _ ht')).mono hfirst.keeps.1)
      rw [trackEpochsFrom]
      dsimp only
      split_ifs
      · obtain ⟨hchanged, hall⟩ := hrest kept
        refine ⟨hfirst.trans hchanged, fun t' ht' => ?_⟩
        rcases List.mem_append.mp ht' with hkept | hremoved
        · exact hall t' (List.mem_append_left _ hkept)
        · rcases List.mem_cons.mp hremoved with rfl | hremoved
          · exact hsound.mono hchanged.keeps.1
          · exact hall t' (List.mem_append_right _ hremoved)
      · obtain ⟨hchanged, hall⟩ := hrest (kept + 1)
        refine ⟨hfirst.trans hchanged, fun t' ht' => ?_⟩
        rcases List.mem_cons.mp ht' with rfl | hrest
        · exact hsound.mono hchanged.keeps.1
        · exact hall t' hrest

variable (sha256 g) in
/-- Without the record of the keys it is the loop of the code. -/
theorem trackEpochsFrom_target (r : EbNRadioBT4 P ec) (kept : Nat) (epochs : List (Tracked P ec))
    (device : EbNDevice P) :
    ((trackEpochsFrom sha256 g r kept epochs device).1.map Tracked.epoch,
        (trackEpochsFrom sha256 g r kept epochs device).2.2)
      = processEpochsFrom sha256 g r kept (epochs.map Tracked.epoch) device := by
  induction epochs generalizing kept device with
  | nil => rfl
  | cons t epochs ih =>
      have hlength : (epochs.map Tracked.epoch).length = epochs.length := List.length_map _
      rw [trackEpochsFrom, List.map_cons, processEpochsFrom, hlength]
      simp only [ne_eq, List.map_eq_nil_iff]
      split_ifs
      · exact ih kept _
      · rw [← ih (kept + 1) _]
        rfl

/-! ## Receiving an advert -/

omit [FloatOps P] in
theorem SameSecrets.refl (e : Epoch P ec) : SameSecrets e e := ⟨.refl e, rfl, rfl⟩

theorem setSymbol_secrets (d : RSErasureDecoder) (index : Nat) (data : Mem) :
    (d.setSymbol index data).2.isDecoded = d.isDecoded ∧ (d.setSymbol index data).2.data = d.data := by
  unfold RSErasureDecoder.setSymbol
  dsimp only
  split_ifs <;> exact ⟨rfl, rfl⟩

variable {advert : BitMap} {n : Nat}

theorem receiveAdvert_secrets (e : Epoch P ec) : SameSecrets e (receiveAdvert advert n e) :=
  ⟨receiveAdvert_same e, (setSymbol_secrets _ _ _).1, (setSymbol_secrets _ _ _).2⟩

theorem receivePrevSymbol_secrets (e : Epoch P ec) : SameSecrets e (receivePrevSymbol advert n e) := by
  refine ⟨receivePrevSymbol_same e, ?_, ?_⟩
  · unfold receivePrevSymbol
    split_ifs
    · exact (setSymbol_secrets _ _ _).1
    · rfl
  · unfold receivePrevSymbol
    split_ifs
    · exact (setSymbol_secrets _ _ _).2
    · rfl

variable (advert) in
/-- An advert leaves the secrets of the epochs there are. -/
theorem receiveEpochs_secrets (r : EbNRadioBT4 P ec) (target : EbNDeviceBT4 P ec) (time : Time) {advertClass}
    (hclass : classify target.epochs n time = advertClass) :
    ∃ olds new, r.receiveEpochs target time advert n advertClass = olds ++ new ∧
      List.Forall₂ SameSecrets target.epochs olds ∧
        (new = [] ∨ ∃ e : Epoch P ec, new = [e] ∧ e.dhDecoder.isDecoded = false ∧ e.dhExchanges = [r.dhExchange]) := by
  have hrefl : ∀ epochs : List (Epoch P ec), List.Forall₂ SameSecrets epochs epochs := fun epochs =>
    List.forall₂_same.mpr fun e _ => .refl e
  cases advertClass with
  | isDuplicate => exact ⟨target.epochs, [], (List.append_nil _).symm, hrefl _, Or.inl rfl⟩
  | current curEpoch =>
      obtain ⟨init, hinit⟩ := List.getLast?_eq_some_iff.mp (classify_current hclass)
      have hhead : List.Forall₂ SameSecrets init (init.modifyHead (receivePrevSymbol advert n)) := by
        cases init with
        | nil => exact .nil
        | cons e init => exact .cons (receivePrevSymbol_secrets e) (hrefl init)
      refine ⟨_, [], (List.append_nil _).symm, ?_, Or.inl rfl⟩
      rw [receiveEpochs, hinit, List.dropLast_concat]
      exact List.rel_append hhead (.cons (receiveAdvert_secrets curEpoch) .nil)
  | isNew =>
      refine ⟨_, _, rfl, ?_, Or.inr ⟨_, rfl, ?_, rfl⟩⟩
      · rcases List.eq_nil_or_concat target.epochs with hnil | ⟨init, e, hinit⟩
        · rw [hnil]
          exact .nil
        · rw [hinit, List.concat_eq_append, List.dropLast_concat, List.getLast?_concat]
          exact List.rel_append (hrefl init) (.cons (receivePrevSymbol_secrets e) .nil)
      · exact (setSymbol_secrets _ _ _).1

theorem processAdvert_secrets (r : EbNRadioBT4 P ec) (target : EbNDeviceBT4 P ec) (time : Time) (data : Mem) :
    ∃ olds new, (r.processAdvert target time data).2 = { target with epochs := olds ++ new } ∧
      List.Forall₂ SameSecrets target.epochs olds ∧
        (new = [] ∨ ∃ e : Epoch P ec, new = [e] ∧ e.dhDecoder.isDecoded = false ∧ e.dhExchanges = [r.dhExchange]) := by
  unfold processAdvert
  dsimp only
  split_ifs
  · cases hclass : classify target.epochs _ time with
    | isDuplicate =>
        obtain ⟨olds, new, hepochs, hrest⟩ := receiveEpochs_secrets (BitMap.new 0) r target time hclass
        exact ⟨olds, new, by rw [← hepochs]; rfl, hrest⟩
    | current curEpoch =>
        obtain ⟨olds, new, hepochs, hrest⟩ := receiveEpochs_secrets _ r target time hclass
        exact ⟨olds, new, by rw [← hepochs], hrest⟩
    | isNew =>
        obtain ⟨olds, new, hepochs, hrest⟩ := receiveEpochs_secrets _ r target time hclass
        exact ⟨olds, new, by rw [← hepochs], hrest⟩
  · exact ⟨target.epochs, [], by rw [List.append_nil], List.forall₂_same.mpr fun e _ => .refl e, Or.inl rfl⟩

/-! ## Steps -/

omit [FloatOps P] in
theorem zip_sound {epochs : List (Tracked P ec)} {news : List (Epoch P ec)} (h : ∀ t ∈ epochs, t.Sound device)
    (hnews : List.Forall₂ SameSecrets (epochs.map Tracked.epoch) news) :
    news.length = (epochs.map Tracked.keys).length ∧
      ∀ t ∈ List.zipWith Tracked.mk news (epochs.map Tracked.keys), t.Sound device := by
  induction epochs generalizing news with
  | nil =>
      cases hnews
      exact ⟨rfl, fun t ht => by cases ht⟩
  | cons t epochs ih =>
      cases hnews with
      | cons hsame hnews =>
          obtain ⟨hlength, hrest⟩ := ih (fun t' ht' => h t' (List.mem_cons_of_mem _ ht')) hnews
          refine ⟨congrArg Nat.succ hlength, fun t' ht' => ?_⟩
          rcases List.mem_cons.mp ht' with rfl | ht'
          · exact (h t List.mem_cons_self).congr hsame
          · exact hrest t' ht'

omit [FloatOps P] in
theorem zip_epochs (epochs : List (Tracked P ec)) :
    List.zipWith Tracked.mk (epochs.map Tracked.epoch) (epochs.map Tracked.keys) = epochs := by
  induction epochs with
  | nil => rfl
  | cons t epochs ih => exact congrArg (t :: ·) ih

omit [FloatOps P] in
theorem map_epoch_zip {epochs : List (Epoch P ec)} {keys : List (List (ECDH ec))} (h : epochs.length ≤ keys.length) :
    (List.zipWith Tracked.mk epochs keys).map Tracked.epoch = epochs := by
  induction epochs generalizing keys with
  | nil => rfl
  | cons e epochs ih =>
      cases keys with
      | nil => cases h
      | cons k keys => exact congrArg (e :: ·) (ih (Nat.le_of_succ_le_succ h))

/-- The epochs after an advert, with their keys. -/
theorem advert_sound {t : Track P ec} (h : ∀ e ∈ t.epochs, e.Sound t.device) (time : Time) (data : Mem) :
    let target := (t.radio.processAdvert t.target time data).2
    let keys := t.epochs.map Tracked.keys ++ [[t.radio.dhExchange]]
    target.toEbNDevice = t.device ∧ (List.zipWith Tracked.mk target.epochs keys).map Tracked.epoch = target.epochs ∧
      ∀ e ∈ List.zipWith Tracked.mk target.epochs keys, e.Sound t.device := by
  intro target keys
  obtain ⟨olds, new, htarget, holds, hnew⟩ := processAdvert_secrets t.radio t.target time data
  obtain ⟨hlength, hsound⟩ := zip_sound h holds
  have hepochs : target.epochs = olds ++ new := congrArg EbNDeviceBT4.epochs htarget
  refine ⟨congrArg EbNDeviceBT4.toEbNDevice htarget, map_epoch_zip ?_, fun e he => ?_⟩
  · rw [hepochs, List.length_append, List.length_append, hlength]
    rcases hnew with rfl | ⟨_, rfl, -⟩
    · exact Nat.le_add_right _ _
    · exact Nat.le_refl _
  · rw [hepochs, List.zipWith_append hlength] at he
    rcases List.mem_append.mp he with he | he
    · exact hsound e he
    · rcases hnew with rfl | ⟨e', rfl, hundecoded, hkeys⟩
      · cases he
      · rw [List.zipWith_cons_cons, List.zipWith_nil_left, List.mem_singleton] at he
        subst he
        exact ⟨fun hdecoded => absurd (hundecoded.symm.trans hdecoded) Bool.noConfusion, fun _ => hkeys.symm⟩

/-- With the key of a decoded epoch the secret is computed, and otherwise the local key is queued. -/
theorem changeEpochDevice_cases (r : EbNRadioBT4 P ec) {target : EbNDeviceBT4 P ec} {init : List (Epoch P ec)}
    {e : Epoch P ec} (hlast : target.epochs = init ++ [e]) :
    e.dhDecoder.isDecoded = true ∧ r.changeEpochDevice target = { target with
        toEbNDevice := addSecret r e.dhDecoder.data e.dhExchangeYCoord target.toEbNDevice r.dhExchange } ∨
      e.dhDecoder.isDecoded = false ∧ r.changeEpochDevice target = { target with
        epochs := init ++ [{ e with dhExchanges := e.dhExchanges ++ [r.dhExchange] }] } := by
  unfold changeEpochDevice addSecret
  rw [hlast, List.getLast?_concat, List.dropLast_concat]
  dsimp only
  cases hdecoded : e.dhDecoder.isDecoded with
  | false => exact Or.inr ⟨rfl, rfl⟩
  | true =>
      refine Or.inl ⟨rfl, ?_⟩
      rw [if_pos rfl]
      cases r.dhExchange.computeSharedSecretXY
        (SharedSecret.ofConfirmed (r.confirmScheme.type = .None) : SharedSecret P) (Mem.ofList e.dhDecoder.data)
        e.dhExchangeYCoord with
      | some sharedSecret => rfl
      | none =>
          dsimp only
          rw [← hlast]

variable (sha256) in
/-- The epochs after a change of the local key, with their keys. -/
theorem changeEpoch_sound (hlaws : ec.Laws) {r : EbNRadioBT4 P ec} (hpassive : r.confirmScheme.type.hasPassive = true)
    {t : Track P ec} (h : ∀ e ∈ t.epochs, e.Sound t.device) :
    let target := r.changeEpochTarget t.target
    let keys := (t.epochs.map Tracked.keys).modifyLast (· ++ [r.dhExchange])
    Changed sha256 t.device target.toEbNDevice ∧
      (List.zipWith Tracked.mk target.epochs keys).map Tracked.epoch = target.epochs ∧
        ∀ e ∈ List.zipWith Tracked.mk target.epochs keys, e.Sound target.toEbNDevice := by
  have htarget : r.changeEpochTarget t.target = r.changeEpochDevice t.target := if_pos hpassive
  rw [htarget]
  rcases List.eq_nil_or_concat t.epochs with hnil | ⟨init, last, hlast⟩
  · have hsame : r.changeEpochDevice t.target = t.target := by
      unfold changeEpochDevice Track.target
      rw [hnil]
      rfl
    rw [hsame, Track.target, hnil]
    exact ⟨.refl _, rfl, fun e he => by cases he⟩
  · rw [List.concat_eq_append] at hlast
    have hepochs : t.target.epochs = init.map Tracked.epoch ++ [last.epoch] := by
      rw [Track.target, hlast, List.map_append]
      rfl
    have hkeys : (t.epochs.map Tracked.keys).modifyLast (· ++ [r.dhExchange])
        = init.map Tracked.keys ++ [last.keys ++ [r.dhExchange]] := by
      rw [hlast, List.map_append]
      exact List.modifyLast_concat _ _ _
    rw [hkeys]
    have hzip : ∀ e : Epoch P ec, List.zipWith Tracked.mk (init.map Tracked.epoch ++ [e])
        (init.map Tracked.keys ++ [last.keys ++ [r.dhExchange]]) = init ++ [⟨e, last.keys ++ [r.dhExchange]⟩] := by
      intro e
      rw [List.zipWith_append (by rw [List.length_map, List.length_map]), zip_epochs]
      rfl
    have hinit : ∀ e ∈ init, e.Sound t.device := fun e he => h e (by rw [hlast]; exact List.mem_append_left _ he)
    have hsound : last.Sound t.device := h last (by rw [hlast]; exact List.mem_append_right _ List.mem_cons_self)
    rcases changeEpochDevice_cases r hepochs with ⟨hdecoded, hafter⟩ | ⟨hundecoded, hafter⟩
    · rw [hafter]
      dsimp only
      rw [hepochs, hzip, List.map_append]
      have hchanged : Changed sha256 t.device
          (addSecret r last.epoch.dhDecoder.data last.epoch.dhExchangeYCoord t.device r.dhExchange) :=
        addSecret_changed sha256 r r.dhExchange
      refine ⟨hchanged, rfl, fun e he => ?_⟩
      rcases List.mem_append.mp he with he | he
      · exact (hinit e he).mono hchanged.keeps.1
      · rw [List.mem_singleton] at he
        subst he
        refine ⟨fun _ => ?_, fun hfalse => absurd (hdecoded.symm.trans hfalse) Bool.noConfusion⟩
        exact ((hsound.complete hdecoded).mono hchanged.keeps.1).append (addSecret_holds hlaws r r.dhExchange)
    · rw [hafter]
      dsimp only
      rw [hzip, List.map_append]
      refine ⟨.refl _, rfl, fun e he => ?_⟩
      rcases List.mem_append.mp he with he | he
      · exact hinit e he
      · rw [List.mem_singleton] at he
        subst he
        refine ⟨fun hfalse => absurd (hundecoded.symm.trans hfalse) Bool.noConfusion, fun _ => ?_⟩
        exact congrArg (· ++ [r.dhExchange]) (hsound.pending hundecoded)

/-! ## Runs -/

/-- What every step keeps: the scheme includes passive confirmation, and all epochs there are or were are complete. -/
structure Track.Inv (t : Track P ec) : Prop where
  hasPassive : t.radio.confirmScheme.type.hasPassive = true
  sound : ∀ e ∈ t.epochs, e.Sound t.device
  past : ∀ e ∈ t.past, e.Complete t.device

omit [FloatOps P] in
theorem Tracked.Complete.mono {t : Tracked P ec} (h : t.Complete device)
    (hsub : ∀ v ∈ values device.sharedSecrets, v ∈ values device'.sharedSecrets) : t.Complete device' :=
  fun hdecoded => (h hdecoded).mono hsub

theorem Track.Inv.step_advert (hlaws : ec.Laws) {t : Track P ec} (h : t.Inv) {time : Time} {data : Mem}
    (hfair : (TrackEvent.advert time data).Fair g t) : (t.step sha256 g (.advert time data)).Inv := by
  obtain ⟨-, hepochs, hsound⟩ := advert_sound h.sound time data
  have hready : ∀ e ∈ List.zipWith Tracked.mk (t.radio.processAdvert t.target time data).2.epochs
      (t.epochs.map Tracked.keys ++ [[t.radio.dhExchange]]), EpochReady g t.radio t.device e.epoch := by
    intro e he hactive
    exact hfair hactive e.epoch (hepochs ▸ List.mem_map_of_mem he)
  obtain ⟨hchanged, hall⟩ := trackEpochsFrom_sound sha256 hlaws t.radio 0 hsound hready
  refine ⟨h.hasPassive, fun e he => hall e (List.mem_append_left _ he), fun e he => ?_⟩
  rcases List.mem_append.mp he with he | he
  · exact (h.past e he).mono hchanged.keeps.1
  · exact (hall e (List.mem_append_right _ he)).complete

theorem Track.Inv.step (hlaws : ec.Laws) {t : Track P ec} (h : t.Inv) {event : TrackEvent P ec}
    (hfair : event.Fair g t) : (t.step sha256 g event).Inv := by
  cases event with
  | advert time data => exact h.step_advert hlaws hfair
  | changeEpoch key randomAddress =>
      obtain ⟨hchanged, -, hsound⟩ := changeEpoch_sound sha256 hlaws
        (r := EbNRadioBT4.changeEpoch g t.radio key randomAddress) h.hasPassive h.sound
      exact ⟨h.hasPassive, hsound, fun e he => (h.past e he).mono hchanged.keeps.1⟩
  | operation op =>
      have hchanged : Changed sha256 t.device (op.apply sha256 t.device) := .op op t.device
      exact ⟨h.hasPassive, fun e he => (h.sound e he).mono hchanged.keeps.1,
        fun e he => (h.past e he).mono hchanged.keeps.1⟩

/-- Without the record of the keys a step is the one of the code. -/
theorem Track.step_run (hlaws : ec.Laws) {t : Track P ec} (h : t.Inv) (event : TrackEvent P ec) :
    ((t.step sha256 g event).radio, (t.step sha256 g event).target) = event.run sha256 g (t.radio, t.target) := by
  cases event with
  | advert time data =>
      obtain ⟨hdevice, hepochs, -⟩ := advert_sound h.sound time data
      have htarget := trackEpochsFrom_target sha256 g t.radio 0 (List.zipWith Tracked.mk
        (t.radio.processAdvert t.target time data).2.epochs (t.epochs.map Tracked.keys ++ [[t.radio.dhExchange]])) t.device
      rw [hepochs] at htarget
      refine Prod.ext rfl ?_
      show EbNDeviceBT4.mk _ _ = processEpochs sha256 g t.radio (t.radio.processAdvert t.target time data).2
      rw [processEpochs, hdevice, ← htarget]
      rfl
  | changeEpoch key randomAddress =>
      obtain ⟨-, hepochs, -⟩ := changeEpoch_sound sha256 hlaws
        (r := EbNRadioBT4.changeEpoch g t.radio key randomAddress) h.hasPassive h.sound
      exact Prod.ext rfl (congrArg (EbNDeviceBT4.mk _) hepochs)
  | operation op => rfl

theorem Track.Inv.run (hlaws : ec.Laws) {t : Track P ec} (h : t.Inv) (events : List (TrackEvent P ec))
    (hfair : FairTrack sha256 g t events) :
    let t' := events.foldl (Track.step sha256 g) t
    t'.Inv ∧ (t'.radio, t'.target) = events.foldl (TrackEvent.run sha256 g) (t.radio, t.target) := by
  induction events generalizing t with
  | nil => exact ⟨h, rfl⟩
  | cons event events ih =>
      obtain ⟨hinv, hrun⟩ := ih (h.step hlaws hfair.1) hfair.2
      rw [Track.step_run hlaws h] at hrun
      exact ⟨hinv, hrun⟩

/-- No condition on the steps where the scheme is purely passive. -/
theorem fairTrack_passive {t : Track P ec} (h : t.radio.confirmScheme.type.hasActive = false)
    (events : List (TrackEvent P ec)) : FairTrack sha256 g t events := by
  induction events generalizing t with
  | nil => trivial
  | cons event events ih =>
      cases event with
      | advert time data => exact ⟨fun hactive => absurd (h.symm.trans hactive) Bool.noConfusion, ih h⟩
      | changeEpoch key randomAddress => exact ⟨trivial, ih h⟩
      | operation op => exact ⟨trivial, ih h⟩

end Sddr.Radio.EbNRadioBT4
