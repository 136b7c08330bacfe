import Sddr.Device.Lemmas.Reports
import Sddr.Radio.Lemmas.BT4Epochs
import Sddr.Radio.Lemmas.BT4Sender

/-!
# The epochs of a receiver

A receiver epoch follows one key: its decoder agrees with the encoder of the key, and its filters hold every value
that the adverts of the key hold, however many segments are missing.
-/

namespace Sddr.Radio.EbNRadioBT4
open Sddr.Lib Sddr.Codec Sddr.Device Sddr.Erasure BT4

variable {P : Type} [FloatOps P] {ec : Ec} {sha256 : List Byte → Digest} {g : Galois} {parts : List Part}
  {values : List LinkValue} {X : List Byte} {qs : List PartSymbols}

/-! ## One epoch -/

/-- The epoch follows the key `X`, whose symbols are those of `qs`. -/
structure Follows (sha256 : List Byte → Digest) (parts : List Part) (values : List LinkValue) (X : List Byte)
    (qs : List PartSymbols) (e : Epoch P ec) : Prop where
  decoder : ∃ S, (∀ i ∈ S, i < symbolCount P ec) ∧
    DecoderInv (RS_K P ec) (RS_M P ec + 2 * (RS_K P ec - 1)) parts qs X S e.dhDecoder
  blooms : ∀ b ∈ e.blooms, IsFilter ec b.1 b.2 ∧
    ∀ v ∈ values, b.2.Holds (filterHash sha256 ec (Mem.ofList X) b.1 v)

variable {e : Epoch P ec} {advert : BitMap} {n : Nat} {symbol prevSymbol : List Byte}

theorem Follows.new (hcode : Code g P ec parts)
    (hqs : CodeOf g (RS_K P ec) (RS_M P ec + 2 * (RS_K P ec - 1)) parts X qs) (advertTime : Time) (dhExchange : ECDH ec)
    (dhExchangeYCoord : Bool) {r : EbNRadioBT4 P ec} (hr : Built g parts r) :
    Follows sha256 parts values X qs (Epoch.new (P := P) n advertTime r.dhCodeMatrix dhExchange dhExchangeYCoord) where
  decoder := by
    have hnew := DecoderInv.new (K := RS_K P ec) (M := RS_M P ec + 2 * (RS_K P ec - 1)) X hqs.parts
    rw [hcode.width] at hnew
    rw [hr.matrix]
    exact ⟨∅, fun i hi => absurd hi (Finset.notMem_empty i), hnew⟩
  blooms _ hb := by cases hb

/-- The filter an advert goes to has all the values already. -/
theorem Follows.bloomFor (h : Follows sha256 parts values X qs e) (hvalues : ConfirmValues P) (bloomNum : Nat) :
    (∀ b ∈ (bloomFor e bloomNum).1, b ∈ e.blooms) ∧ IsFilter ec bloomNum (bloomFor e bloomNum).2 ∧
      ∀ v ∈ values, (bloomFor e bloomNum).2.Holds (filterHash sha256 ec (Mem.ofList X) bloomNum v) := by
  have hfresh := isFilter_segmentedBloom (P := P) ec bloomNum true
  have hpos := (segmentStart_add_size hvalues ec (bloomNum * 2)).2
  have hones : ∀ v ∈ values,
      (segmentedBloom P ec bloomNum true).Holds (filterHash sha256 ec (Mem.ofList X) bloomNum v) :=
    fun v _ k _ => get_segmentedBloom_true (Nat.mod_lt _ (by rw [hfresh.M]; omega))
  unfold EbNRadioBT4.bloomFor
  cases hlast : e.blooms.getLast? with
  | none => exact ⟨fun b hb => hb, hfresh, hones⟩
  | some last =>
      dsimp only
      split_ifs with hnum
      · obtain ⟨hfilter, hholds⟩ := h.blooms last (List.mem_of_getLast? hlast)
        subst hnum
        exact ⟨fun b hb => List.mem_of_mem_dropLast hb, hfilter, hholds⟩
      · exact ⟨fun b hb => hb, hfresh, hones⟩

theorem Follows.receiveAdvert (h : Follows sha256 parts values X qs e) (hvalues : ConfirmValues P)
    (hcode : Code g P ec parts) (hqs : CodeOf g (RS_K P ec) (RS_M P ec + 2 * (RS_K P ec - 1)) parts X qs)
    (hcarries : Carries P ec sha256 values (Mem.ofList X) (storeSymbol qs n) prevSymbol n advert)
    (hn : n < symbolCount P ec) : Follows sha256 parts values X qs (receiveAdvert advert n e) where
  decoder := by
    obtain ⟨S, hS, hdecoder⟩ := h.decoder
    refine ⟨insert n S, fun i hi => (Finset.mem_insert.mp hi).elim (fun heq => heq ▸ hn) (hS i), ?_⟩
    refine hdecoder.setSymbol (fun q hq => (hqs.encoded q hq).1.le) ?_
    rw [hqs.symbolWidth, hcode.width]
    exact hcarries.symbol
  blooms b hb := by
    obtain ⟨hothers, hfilter, hholds⟩ := h.bloomFor hvalues (n / BF_B)
    rcases List.mem_append.mp hb with hold | hnew
    · exact h.blooms b (hothers b hold)
    · rw [List.mem_singleton.mp hnew]
      exact ⟨hfilter.of_eq rfl rfl rfl rfl, fun v hv => hcarries.segment _ hfilter v hv (hholds v hv)⟩

theorem Follows.receivePrevSymbol (h : Follows sha256 parts values X qs e) (hcode : Code g P ec parts)
    (hqs : CodeOf g (RS_K P ec) (RS_M P ec + 2 * (RS_K P ec - 1)) parts X qs)
    (hsymbol : n < RS_K P ec - 1 → (readSymbol P ec advert (1 + ADV_N_LOG2 + 8 * RS_W P ec)).take (RS_W P ec)
      = storeSymbol qs (n + RS_K P ec + RS_M P ec)) :
    Follows sha256 parts values X qs (receivePrevSymbol advert n e) := by
  unfold EbNRadioBT4.receivePrevSymbol
  split_ifs with hfirst
  · obtain ⟨S, hS, hdecoder⟩ := h.decoder
    refine ⟨⟨insert (n + RS_K P ec + RS_M P ec) S, fun i hi => ?_, ?_⟩, h.blooms⟩
    · rcases Finset.mem_insert.mp hi with rfl | hi
      · simp only [symbolCount]
        omega
      · exact hS i hi
    · refine hdecoder.setSymbol (fun q hq => (hqs.encoded q hq).1.le) ?_
      rw [hqs.symbolWidth, hcode.width]
      exact hsymbol hfirst.1
  · exact h

/-! ## Processing an epoch -/

variable {r : EbNRadioBT4 P ec} {device : EbNDevice P}

theorem addSecrets_matching (dhRemotePublic : List Byte) :
    (r.addSecrets e dhRemotePublic device).matching = device.matching := by
  unfold addSecrets
  induction e.dhExchanges generalizing device with
  | nil => rfl
  | cons dhExchange rest ih =>
      rw [List.foldl_cons, ih]
      cases dhExchange.computeSharedSecretXY (SharedSecret.ofConfirmed (P := P) (r.confirmScheme.type = .None))
          (Mem.ofList dhRemotePublic) e.dhExchangeYCoord with
      | none => rfl
      | some sharedSecret => exact (addSharedSecret_matching device sharedSecret).1

theorem Follows.decodeEpoch (h : Follows sha256 parts values X qs e) (hK : 2 ≤ RS_K P ec)
    (hqs : CodeOf g (RS_K P ec) (RS_M P ec + 2 * (RS_K P ec - 1)) parts X qs) :
    Follows sha256 parts values X qs (decodeEpoch g r e device).1 ∧
      (decodeEpoch g r e device).2.matching = device.matching := by
  obtain ⟨S, hS, hdecoder⟩ := h.decoder
  have hnext := (hdecoder.decode (by omega) hqs hS).1
  unfold EbNRadioBT4.decodeEpoch
  cases !e.dhDecoder.isDecoded && e.dhDecoder.canDecode with
  | false => exact ⟨h, rfl⟩
  | true =>
      rw [if_pos rfl]
      cases hrun : e.dhDecoder.decode g with
      | mk result dhDecoder =>
          rw [hrun] at hnext
          cases result with
          | none => exact ⟨⟨⟨S, hS, hnext⟩, h.blooms⟩, rfl⟩
          | some dhRemotePublic =>
              refine ⟨⟨⟨S, hS, hnext⟩, h.blooms⟩, ?_⟩
              dsimp only
              split_ifs
              · rfl
              · exact addSecrets_matching dhRemotePublic

theorem processBloom_spec {bloomNum decodeBloomNum : Nat} {bloom : SegmentedBloomFilter P}
    (hfilter : IsFilter ec bloomNum bloom)
    (hholds : ∀ v ∈ values, bloom.Holds (filterHash sha256 ec (Mem.ofList X) bloomNum v)) :
    let processed := processBloom sha256 r X decodeBloomNum bloomNum bloom device
    IsFilter ec bloomNum processed.1 ∧
      (∀ v ∈ values, processed.1.Holds (filterHash sha256 ec (Mem.ofList X) bloomNum v)) ∧
      ∀ v ∈ values, v ∈ device.matching → v ∈ processed.2.matching := by
  intro processed
  simp only [processed, processBloom, SegmentedBloomFilter.resetPFalse]
  split_ifs with hnew hpassive
  all_goals refine ⟨hfilter.of_eq rfl rfl rfl rfl, hholds, fun v hv hmem => ?_⟩
  · exact List.mem_filter.mpr ⟨hmem, BloomFilter.queryHash_iff.mpr (hholds v hv)⟩
  · exact List.mem_filter.mpr ⟨hmem, BloomFilter.queryHash_iff.mpr (hholds v hv)⟩
  · exact hmem

theorem processBlooms_spec {decodeBloomNum lastNum : Nat} {blooms : List (Nat × SegmentedBloomFilter P)}
    (hblooms : ∀ b ∈ blooms, IsFilter ec b.1 b.2 ∧
      ∀ v ∈ values, b.2.Holds (filterHash sha256 ec (Mem.ofList X) b.1 v)) :
    let processed := processBlooms sha256 r X decodeBloomNum lastNum blooms device
    (∀ b ∈ processed.1, IsFilter ec b.1 b.2 ∧
      ∀ v ∈ values, b.2.Holds (filterHash sha256 ec (Mem.ofList X) b.1 v)) ∧
      ∀ v ∈ values, v ∈ device.matching → v ∈ processed.2.matching := by
  induction blooms generalizing device with
  | nil => exact ⟨(fun b hb => by cases hb), fun _ _ hmem => hmem⟩
  | cons b blooms ih =>
      obtain ⟨bloomNum, bloom⟩ := b
      obtain ⟨hfilter, hholds⟩ := hblooms (bloomNum, bloom) List.mem_cons_self
      obtain ⟨hfilter', hholds', hmatching⟩ := processBloom_spec (r := r)
        hfilter hholds
      obtain ⟨hrest, hkept⟩ := ih
        fun b hb => hblooms b (List.mem_cons_of_mem _ hb)
      intro processed
      simp only [processed, processBlooms]
      split_ifs
      · exact ⟨hrest, fun v hv hmem => hkept v hv (hmatching v hv hmem)⟩
      · refine ⟨fun b hb => ?_, fun v hv hmem => hkept v hv (hmatching v hv hmem)⟩
        rcases List.mem_cons.mp hb with rfl | hb
        · exact ⟨hfilter', hholds'⟩
        · exact hrest b hb

theorem Follows.processEpoch (h : Follows sha256 parts values X qs e) (hK : 2 ≤ RS_K P ec)
    (hqs : CodeOf g (RS_K P ec) (RS_M P ec + 2 * (RS_K P ec - 1)) parts X qs) :
    Follows sha256 parts values X qs (processEpoch sha256 g r e device).1 ∧
      ∀ v ∈ values, v ∈ device.matching → v ∈ (processEpoch sha256 g r e device).2.matching := by
  obtain ⟨hdecoded, hmatching⟩ := h.decodeEpoch (r := r) hK hqs
  obtain ⟨S, hS, hdecoder⟩ := hdecoded.decoder
  unfold EbNRadioBT4.processEpoch
  dsimp only
  split
  · next last hisDecoded hlast =>
      obtain ⟨hblooms, hkept⟩ := processBlooms_spec (r := r)
        hdecoded.blooms
      rw [hdecoder.data hisDecoded]
      exact ⟨⟨⟨S, hS, hdecoder⟩, hblooms⟩, fun v hv hmem => hkept v hv (hmatching ▸ hmem)⟩
  · exact ⟨hdecoded, fun v _ hmem => hmatching ▸ hmem⟩

/-! ## All epochs of a device -/

/-- The epoch follows the key of `code`, if there is one. -/
def FollowsSome (sha256 : List Byte → Digest) (parts : List Part) (values : List LinkValue)
    (code : Option (List Byte × List PartSymbols)) (e : Epoch P ec) : Prop :=
  ∃ X qs, code = some (X, qs) ∧ Follows sha256 parts values X qs e

/-- Before the first advert of a sender epoch there is at most the receiver epoch for the one before, `prev`. -/
def Before (sha256 : List Byte → Digest) (parts : List Part) (values : List LinkValue)
    (prev : Option (List Byte × List PartSymbols)) (epochs : List (Epoch P ec)) : Prop :=
  epochs.length ≤ 1 ∧ ∀ p ∈ epochs, FollowsSome sha256 parts values prev p

/-- From then on the last epoch follows the current key `X`. -/
def Tracks (sha256 : List Byte → Digest) (parts : List Part) (values : List LinkValue)
    (prev : Option (List Byte × List PartSymbols)) (X : List Byte) (qs : List PartSymbols)
    (epochs : List (Epoch P ec)) : Prop :=
  ∃ init e, epochs = init ++ [e] ∧ Before sha256 parts values prev init ∧ Follows sha256 parts values X qs e

variable {prev : Option (List Byte × List PartSymbols)}

theorem processEpochsFrom_spec (hK : 2 ≤ RS_K P ec)
    (hprev : ∀ code ∈ prev, CodeOf g (RS_K P ec) (RS_M P ec + 2 * (RS_K P ec - 1)) parts code.1 code.2)
    (hqs : CodeOf g (RS_K P ec) (RS_M P ec + 2 * (RS_K P ec - 1)) parts X qs) (init : List (Epoch P ec))
    (hinit : ∀ p ∈ init, FollowsSome sha256 parts values prev p) (he : Follows sha256 parts values X qs e) (kept : Nat)
    (device : EbNDevice P) :
    let processed := processEpochsFrom sha256 g r kept (init ++ [e]) device
    (∃ init' e', processed.1 = init' ++ [e'] ∧ init'.length ≤ init.length ∧
      (∀ p ∈ init', FollowsSome sha256 parts values prev p) ∧ Follows sha256 parts values X qs e') ∧
      ∀ v ∈ values, v ∈ device.matching → v ∈ processed.2.matching := by
  induction init generalizing kept device with
  | nil =>
      obtain ⟨hnext, hmatching⟩ := he.processEpoch (r := r) hK hqs
      exact ⟨⟨[], _, rfl, Nat.le_refl 0, (fun p hp => by cases hp), hnext⟩, hmatching⟩
  | cons p init ih =>
      obtain ⟨Xp, qsp, hcode, hp⟩ := hinit p List.mem_cons_self
      obtain ⟨hnext, hmatching⟩ := hp.processEpoch (r := r) hK (hprev _ hcode)
      intro processed
      simp only [processed, List.cons_append, processEpochsFrom]
      split_ifs
      · obtain ⟨⟨init', e', hrun, hlength, hinit', he'⟩, hkept⟩ :=
          ih (fun p hp => hinit p (List.mem_cons_of_mem _ hp)) kept (processEpoch sha256 g r p device).2
        exact ⟨⟨init', e', hrun, Nat.le_succ_of_le hlength, hinit', he'⟩,
          fun v hv hmem => hkept v hv (hmatching v hv hmem)⟩
      · obtain ⟨⟨init', e', hrun, hlength, hinit', he'⟩, hkept⟩ :=
          ih (fun p hp => hinit p (List.mem_cons_of_mem _ hp)) (kept + 1) (processEpoch sha256 g r p device).2
        refine ⟨⟨(processEpoch sha256 g r p device).1 :: init', e', ?_, Nat.succ_le_succ hlength, fun p' hp' => ?_, he'⟩,
          fun v hv hmem => hkept v hv (hmatching v hv hmem)⟩
        · rw [List.cons_append, ← hrun]
        · rcases List.mem_cons.mp hp' with rfl | hp'
          · exact ⟨Xp, qsp, hcode, hnext⟩
          · exact hinit' p' hp'

variable {receiver : EbNRadioBT4 P ec} {target : EbNDeviceBT4 P ec} {time : Time} {isFirst : Bool}

/-- The epochs after an attributed advert. -/
theorem tracks_receiveEpochs (hvalues : ConfirmValues P) (hcode : Code g P ec parts)
    (hqs : CodeOf g (RS_K P ec) (RS_M P ec + 2 * (RS_K P ec - 1)) parts X qs)
    (hprev : ∀ code ∈ prev, CodeOf g (RS_K P ec) (RS_M P ec + 2 * (RS_K P ec - 1)) parts code.1 code.2 ∧
      (n < RS_K P ec - 1 → prevSymbol = storeSymbol code.2 (n + RS_K P ec + RS_M P ec)))
    (hcarries : Carries P ec sha256 values (Mem.ofList X) (storeSymbol qs n) prevSymbol n advert)
    (hn : n < symbolCount P ec) (hreceiver : Built g parts receiver)
    (hepochs : if isFirst then Before sha256 parts values prev target.epochs
      else Tracks sha256 parts values prev X qs target.epochs)
    (hattributed : Attributed isFirst (classify target.epochs n time)) :
    Tracks sha256 parts values prev X qs
      (receiver.receiveEpochs target time advert n (classify target.epochs n time)) := by
  have hold : ∀ p : Epoch P ec, FollowsSome sha256 parts values prev p →
      FollowsSome sha256 parts values prev (receivePrevSymbol advert n p) := by
    rintro p ⟨Xp, qsp, hp, hfollows⟩
    obtain ⟨hqsp, hsymbol⟩ := hprev _ hp
    exact ⟨Xp, qsp, hp, hfollows.receivePrevSymbol hcode hqsp fun hfirst =>
      (hcarries.prevSymbol hfirst).trans (hsymbol hfirst)⟩
  cases hclass : classify target.epochs n time with
  | isDuplicate =>
      rw [hclass] at hattributed
      exact hattributed.elim
  | current curEpoch =>
      rw [hclass] at hattributed
      obtain rfl : isFirst = false := hattributed
      obtain ⟨init, e, heq, ⟨hlength, hinit⟩, he⟩ := hepochs
      have hlast := classify_current hclass
      rw [heq, List.getLast?_concat] at hlast
      cases hlast
      rw [receiveEpochs, heq, List.dropLast_concat]
      refine ⟨_, _, rfl, ⟨by rw [List.length_modifyHead]; exact hlength, fun p hp => ?_⟩,
        he.receiveAdvert hvalues hcode hqs hcarries hn⟩
      cases init with
      | nil => cases hp
      | cons p₀ init =>
          rcases List.mem_cons.mp hp with rfl | hp
          · exact hold p₀ (hinit p₀ List.mem_cons_self)
          · exact hinit p (List.mem_cons_of_mem _ hp)
  | isNew =>
      rw [hclass] at hattributed
      obtain rfl : isFirst = true := hattributed
      obtain ⟨hlength, hall⟩ := hepochs
      have hnew := (Follows.new (n := n) hcode hqs time receiver.dhExchange
        target.address.yCoord hreceiver).receiveAdvert hvalues hcode hqs hcarries hn
      rw [receiveEpochs]
      refine ⟨_, _, rfl, ?_, hnew⟩
      rcases hepochs' : target.epochs with _ | ⟨p, _ | ⟨p', rest⟩⟩
      · exact ⟨Nat.zero_le 1, fun p hp => by cases hp⟩
      · refine ⟨Nat.le_refl 1, fun p' hp' => ?_⟩
        rw [List.mem_singleton.mp hp']
        exact hold p (hall p (by rw [hepochs']; exact List.mem_singleton_self p))
      · rw [hepochs'] at hlength
        simp at hlength

theorem receive_spec (hvalues : ConfirmValues P) (hcode : Code g P ec parts)
    (hqs : CodeOf g (RS_K P ec) (RS_M P ec + 2 * (RS_K P ec - 1)) parts X qs)
    (hprev : ∀ code ∈ prev, CodeOf g (RS_K P ec) (RS_M P ec + 2 * (RS_K P ec - 1)) parts code.1 code.2 ∧
      (n < RS_K P ec - 1 → prevSymbol = storeSymbol code.2 (n + RS_K P ec + RS_M P ec)))
    {data : Mem}
    (hcarries : Carries P ec sha256 values (Mem.ofList X) (storeSymbol qs n) prevSymbol n (BitMap.ofMem (31 * 8) data))
    (hn : n < ADV_N) (hreceiver : Built g parts receiver)
    (hepochs : if isFirst then Before sha256 parts values prev target.epochs
      else Tracks sha256 parts values prev X qs target.epochs)
    (hattributed : Attributed isFirst (classify target.epochs n time)) :
    Tracks sha256 parts values prev X qs (receive sha256 g receiver target time data).epochs ∧
      ∀ v ∈ values, v ∈ target.matching → v ∈ (receive sha256 g receiver target time data).matching := by
  obtain ⟨_, _, hK4, _⟩ := size_facts hvalues ec
  have hADV := symbols_per_epoch hvalues ec
  obtain ⟨init, e, hreceived, ⟨hlength, hinit⟩, he⟩ := tracks_receiveEpochs hvalues hcode hqs hprev hcarries
    (by simp only [symbolCount]; omega) hreceiver hepochs hattributed
  have hadvert := processAdvert_epochs receiver target time hcarries.number (by omega)
  obtain ⟨⟨init', e', hprocessed, hlength', hinit', he'⟩, hmatching⟩ := processEpochsFrom_spec (r := receiver)
    (by omega) (fun code hc => (hprev code hc).1) hqs init hinit he 0 target.toEbNDevice
  rw [receive, processEpochs, hadvert]
  dsimp only
  rw [hreceived]
  exact ⟨⟨init', e', hprocessed, ⟨hlength'.trans hlength, hinit'⟩, he'⟩, hmatching⟩

/-- A change of the receiver's epoch leaves decoders and filters alone. -/
theorem changeEpochDevice_spec (r : EbNRadioBT4 P ec) (device : EbNDeviceBT4 P ec) :
    (r.changeEpochDevice device).matching = device.matching ∧
      ((r.changeEpochDevice device).epochs = device.epochs ∨ ∃ curEpoch dhExchanges,
        device.epochs.getLast? = some curEpoch ∧
          (r.changeEpochDevice device).epochs = device.epochs.dropLast ++ [{ curEpoch with dhExchanges }]) := by
  unfold changeEpochDevice
  cases hlast : device.epochs.getLast? with
  | none => exact ⟨rfl, Or.inl rfl⟩
  | some curEpoch =>
      dsimp only
      split_ifs
      · cases r.dhExchange.computeSharedSecretXY (SharedSecret.ofConfirmed (P := P) (r.confirmScheme.type = .None))
            (Mem.ofList curEpoch.dhDecoder.data) curEpoch.dhExchangeYCoord with
        | none => exact ⟨rfl, Or.inl rfl⟩
        | some sharedSecret => exact ⟨(addSharedSecret_matching device.toEbNDevice sharedSecret).1, Or.inl rfl⟩
      · exact ⟨rfl, Or.inr ⟨curEpoch, _, rfl, rfl⟩⟩

theorem Before.changeEpochDevice (h : Before sha256 parts values prev target.epochs) (r : EbNRadioBT4 P ec) :
    Before sha256 parts values prev (r.changeEpochDevice target).epochs := by
  obtain ⟨hlength, hall⟩ := h
  rcases (changeEpochDevice_spec r target).2 with heq | ⟨curEpoch, dhExchanges, hlast, heq⟩
  · rw [heq]
    exact ⟨hlength, hall⟩
  · rw [heq]
    have hsplit := List.dropLast_append_getLast? curEpoch hlast
    refine ⟨?_, fun p hp => ?_⟩
    · rw [← hsplit, List.length_append] at hlength
      rw [List.length_append]
      exact hlength
    · rcases List.mem_append.mp hp with hp | hp
      · exact hall p (List.mem_of_mem_dropLast hp)
      · obtain ⟨Xp, qsp, hcode, hfollows⟩ := hall curEpoch (List.mem_of_getLast? hlast)
        rw [List.mem_singleton.mp hp]
        exact ⟨Xp, qsp, hcode, hfollows.decoder, hfollows.blooms⟩

theorem Tracks.changeEpochDevice (h : Tracks sha256 parts values prev X qs target.epochs) (r : EbNRadioBT4 P ec) :
    Tracks sha256 parts values prev X qs (r.changeEpochDevice target).epochs := by
  rcases (changeEpochDevice_spec r target).2 with heq | ⟨curEpoch, dhExchanges, hlast, heq⟩
  · rw [heq]
    exact h
  · obtain ⟨init, e, hepochs, hinit, he⟩ := h
    rw [heq]
    rw [hepochs, List.getLast?_concat] at hlast
    cases hlast
    rw [hepochs, List.dropLast_concat]
    exact ⟨init, _, rfl, hinit, he.decoder, he.blooms⟩

/-! ## A whole sender epoch -/

/-- Whatever is heard of the adverts of an epoch, the last receiver epoch follows its key, and no value that all
adverts carry leaves the matching set. -/
theorem heard_spec (hvalues : ConfirmValues P) (hcode : Code g P ec parts)
    (hqs : CodeOf g (RS_K P ec) (RS_M P ec + 2 * (RS_K P ec - 1)) parts X qs)
    {adverts : Nat → List Byte} {prevSymbols : Nat → List Byte}
    (hprev : ∀ code ∈ prev, CodeOf g (RS_K P ec) (RS_M P ec + 2 * (RS_K P ec - 1)) parts code.1 code.2 ∧
      ∀ n < RS_K P ec - 1, prevSymbols n = storeSymbol code.2 (n + RS_K P ec + RS_M P ec))
    (hcarries : ∀ n < ADV_N, Carries P ec sha256 values (Mem.ofList X) (storeSymbol qs n) (prevSymbols n) n
      (BitMap.ofMem (31 * 8) (Mem.ofList (adverts n))))
    (events : List (Hearing P ec)) {next : Nat}
    (hevents : Heard sha256 g adverts isFirst next target events)
    (hepochs : if isFirst then Before sha256 parts values prev target.epochs
      else Tracks sha256 parts values prev X qs target.epochs) :
    let final := events.foldl (hear sha256 g adverts) target
    (Before sha256 parts values prev final.epochs ∨ Tracks sha256 parts values prev X qs final.epochs) ∧
      ∀ v ∈ values, v ∈ target.matching → v ∈ final.matching := by
  induction events generalizing isFirst next target with
  | nil =>
      refine ⟨?_, fun v _ hmem => hmem⟩
      cases isFirst with
      | true => exact Or.inl hepochs
      | false => exact Or.inr hepochs
  | cons event events ih =>
      cases event with
      | changeEpoch receiver =>
          have hnext : if isFirst then Before sha256 parts values prev (receiver.changeEpochDevice target).epochs
              else Tracks sha256 parts values prev X qs (receiver.changeEpochDevice target).epochs := by
            cases isFirst with
            | true => exact Before.changeEpochDevice hepochs receiver
            | false => exact Tracks.changeEpochDevice hepochs receiver
          obtain ⟨hfinal, hkept⟩ := ih hevents hnext
          refine ⟨hfinal, fun v hv hmem => hkept v hv ?_⟩
          rw [hear, (changeEpochDevice_spec receiver target).1]
          exact hmem
      | advert advertNum time receiver =>
          obtain ⟨hreach, _, hlt, hattributed, hrest⟩ := hevents
          obtain ⟨htracks, hmatching⟩ := receive_spec hvalues hcode hqs
            (fun code hc => ⟨(hprev code hc).1, (hprev code hc).2 advertNum⟩) (hcarries advertNum hlt) hlt
            (hreach.built hvalues hcode) hepochs hattributed
          obtain ⟨hfinal, hkept⟩ := ih hrest htracks
          exact ⟨hfinal, fun v hv hmem => hkept v hv (hmatching v hv hmem)⟩

/-! ## Adverts heard at one time -/

section
variable {receiver : EbNRadioBT4 P ec} {device : EbNDeviceBT4 P ec} {time : Time} {data : Mem} {n : Nat}

variable (sha256 g receiver) in
/-- The first advert opens an epoch. -/
theorem receive_fresh (hnumber : (BitMap.ofMem (31 * 8) data).readNumber 1 ADV_N_LOG2 = n)
    (hn : n < RS_K P ec + RS_M P ec) (hepochs : device.epochs = []) :
    classify device.epochs n time = .isNew ∧
      ∃ init' e', (receive sha256 g receiver device time data).epochs = init' ++ [e'] ∧ e'.lastAdvertNum = n ∧
        e'.lastAdvertTime = time := by
  have hclass : classify device.epochs n time = .isNew := by
    rw [hepochs]
    rfl
  have hadvert := processAdvert_epochs receiver device time hnumber hn
  rw [hclass, receiveEpochs, hepochs] at hadvert
  obtain ⟨init', e', hrun, hsame⟩ := processEpochsFrom_last sha256 g receiver (receiveAdvert _ n
    (Epoch.new n time receiver.dhCodeMatrix receiver.dhExchange device.address.yCoord)) [] 0 device.toEbNDevice
  refine ⟨hclass, init', e', ?_, hsame.lastAdvertNum, hsame.lastAdvertTime⟩
  rw [receive, hadvert]
  exact hrun

variable (sha256 g receiver) in
/-- Higher ones at the same time go to it. -/
theorem receive_burst (hnumber : (BitMap.ofMem (31 * 8) data).readNumber 1 ADV_N_LOG2 = n)
    (hn : n < RS_K P ec + RS_M P ec) {init : List (Epoch P ec)} {e : Epoch P ec} (hepochs : device.epochs = init ++ [e])
    (hnum : e.lastAdvertNum < n) (htime : e.lastAdvertTime = time) :
    classify device.epochs n time = .current e ∧
      ∃ init' e', (receive sha256 g receiver device time data).epochs = init' ++ [e'] ∧
        e'.lastAdvertNum = e.lastAdvertNum ∧ e'.lastAdvertTime = time := by
  have hclass : classify device.epochs n time = .current e := by
    unfold classify
    rw [hepochs, List.getLast?_concat]
    dsimp only
    rw [if_neg (by omega), htime, if_pos]
    refine ⟨hnum, ?_⟩
    simp only [BitVec.sub_self, SCAN_INTERVAL]
    change 0 < _
    omega
  have hadvert := processAdvert_epochs receiver device time hnumber hn
  rw [hclass] at hadvert
  obtain ⟨init', e', hrun, hsame⟩ := processEpochsFrom_last sha256 g receiver (receiveAdvert _ n e)
    (device.epochs.dropLast.modifyHead (receivePrevSymbol _ n)) 0 device.toEbNDevice
  refine ⟨hclass, init', e', ?_, hsame.lastAdvertNum, hsame.lastAdvertTime.trans htime⟩
  rw [receive, hadvert]
  exact hrun

variable {adverts : Nat → List Byte} (hvalues : ConfirmValues P) (hreceiver : Reachable sha256 g receiver)
  (hnumber : ∀ n < ADV_N, (BitMap.ofMem (31 * 8) (Mem.ofList (adverts n))).readNumber 1 ADV_N_LOG2 = n)

include hvalues hreceiver hnumber

variable (time) in
theorem heard_burst (count : Nat) : ∀ (n : Nat) (device : EbNDeviceBT4 P ec) (init : List (Epoch P ec)) (e : Epoch P ec),
    n + count ≤ ADV_N → device.epochs = init ++ [e] → e.lastAdvertNum < n → e.lastAdvertTime = time →
      let events := (List.range' n count).map fun n => Hearing.advert n time receiver
      Heard sha256 g adverts false n device events ∧
        ∃ init' e', (events.foldl (hear sha256 g adverts) device).epochs = init' ++ [e'] ∧
          e'.lastAdvertNum = e.lastAdvertNum ∧ e'.lastAdvertTime = time := by
  have hADV := symbols_per_epoch hvalues ec
  induction count with
  | zero => exact fun _ _ init e _ hepochs _ htime => ⟨trivial, init, e, hepochs, rfl, htime⟩
  | succ count ih =>
      intro n device init e hlt hepochs hnum htime
      obtain ⟨hclass, init', e', hepochs', hnum', htime'⟩ :=
        receive_burst sha256 g receiver (hnumber n (by omega)) (by omega) hepochs hnum htime
      obtain ⟨hheard, init'', e'', hlast, hnum'', htime''⟩ := ih (n + 1) _ init' e' (by omega) hepochs' (by omega) htime'
      refine ⟨⟨hreceiver, Nat.le_refl n, by omega, ?_, hheard⟩, init'', e'', hlast, hnum''.trans hnum', htime''⟩
      rw [hclass]
      rfl

variable (device) in
/-- All adverts that are heard at one time belong to the receiver epoch that the first of them opens. -/
theorem heard_fresh (time : Time) (n count : Nat) (hlt : n + (count + 1) ≤ ADV_N) (hepochs : device.epochs = []) :
    let events := (List.range' n (count + 1)).map fun n => Hearing.advert n time receiver
    Heard sha256 g adverts true n device events ∧
      ∃ init e, (events.foldl (hear sha256 g adverts) device).epochs = init ++ [e] ∧ e.lastAdvertNum = n ∧
        e.lastAdvertTime = time := by
  have hADV := symbols_per_epoch hvalues ec
  obtain ⟨hclass, init, e, hepochs', hnum, htime⟩ :=
    receive_fresh sha256 g receiver (hnumber n (by omega)) (by omega) hepochs
  obtain ⟨hheard, init', e', hlast, hnum', htime'⟩ := heard_burst time hvalues hreceiver hnumber count (n + 1) _ init e
    (by omega) hepochs' (by omega) htime
  refine ⟨⟨hreceiver, Nat.le_refl n, by omega, ?_, hheard⟩, init', e', hlast, hnum'.trans hnum, htime'⟩
  rw [hclass]
  rfl

end

end Sddr.Radio.EbNRadioBT4
