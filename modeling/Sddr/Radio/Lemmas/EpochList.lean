import Sddr.Radio.EpochList
import Sddr.Radio.Lemmas.BT4Epochs
import Sddr.Radio.Lemmas.BT4Sender

/-!
# The epochs of a device

What an epoch has from its first advert on makes every call in the code defined. Only the loop of `processEpochs`
removes epochs, and what it leaves in front of the last one is not decoded.
-/

namespace Sddr.Radio.EbNRadioBT4
open Sddr.Lib Sddr.Codec Sddr.Device Sddr.Erasure BT4

variable {P : Type} [FloatOps P] {ec : Ec} {sha256 : List Byte → Digest} {g : Galois}

/-! ## Decoders -/

theorem setSymbol_keeps (d : RSErasureDecoder) (index : Nat) (data : Mem) :
    (d.setSymbol index data).2.matrix = d.matrix ∧ (d.setSymbol index data).2.isDecoded = d.isDecoded := by
  unfold RSErasureDecoder.setSymbol
  dsimp only
  split <;> exact ⟨rfl, rfl⟩

theorem decode_matrix (d : RSErasureDecoder) : (d.decode g).2.matrix = d.matrix := by
  unfold RSErasureDecoder.decode
  split_ifs <;> rfl

theorem setSymbolIn_eq {d : RSErasureDecoder} {index : Nat} (h : index < d.matrix.K + d.matrix.M) (data : Mem) :
    d.setSymbolIn index data = some (d.setSymbol index data).2 := if_pos h

/-! ## One epoch -/

variable (P ec) in
/-- The matrix of the constructor, as far as its number of symbols is concerned. -/
def CodeSize (matrix : RSMatrix) : Prop := matrix.K + matrix.M = RS_K P ec + (RS_M P ec + 2 * (RS_K P ec - 1))

/-- From its first advert on. -/
structure EpochOk (e : Epoch P ec) : Prop where
  symbols : CodeSize P ec e.dhDecoder.matrix
  blooms : e.dhDecoder.isDecoded = false → e.blooms ≠ []

variable {advert : BitMap} {n : Nat} {e : Epoch P ec}

theorem receiveAdvertIn_eq (hn : n < RS_K P ec + RS_M P ec) (h : CodeSize P ec e.dhDecoder.matrix) :
    receiveAdvertIn advert n e = some (receiveAdvert advert n e) := by
  rw [receiveAdvertIn, setSymbolIn_eq (by rw [h]; omega)]
  rfl

theorem receiveAdvert_ok (h : CodeSize P ec e.dhDecoder.matrix) : EpochOk (receiveAdvert advert n e) where
  symbols := by
    rw [receiveAdvert, (setSymbol_keeps _ _ _).1]
    exact h
  blooms _ := by simp [receiveAdvert]

theorem receivePrevSymbolIn_eq (h : CodeSize P ec e.dhDecoder.matrix) :
    receivePrevSymbolIn advert n e = some (receivePrevSymbol advert n e) := by
  unfold receivePrevSymbolIn receivePrevSymbol
  split_ifs with hprev
  · rw [setSymbolIn_eq (by rw [h]; omega)]
    rfl
  · rfl

theorem receivePrevSymbol_ok (h : EpochOk e) : EpochOk (receivePrevSymbol advert n e) := by
  unfold receivePrevSymbol
  split_ifs
  · obtain ⟨hmatrix, hdecoded⟩ := setSymbol_keeps e.dhDecoder (n + RS_K P ec + RS_M P ec)
      (readSymbol P ec advert (1 + ADV_N_LOG2 + 8 * RS_W P ec))
    exact ⟨by rw [hmatrix]; exact h.symbols, fun hundecoded => h.blooms (hdecoded.symm.trans hundecoded)⟩
  · exact h

/-! ## processAdvert -/

section
variable {r : EbNRadioBT4 P ec} {device : EbNDeviceBT4 P ec} {time : Time} (hr : CodeSize P ec r.dhCodeMatrix)
  (h : ∀ e ∈ device.epochs, EpochOk e)
include hr h

theorem receiveEpochs_ok (hn : n < RS_K P ec + RS_M P ec) :
    r.receiveEpochsIn device time advert n (classify device.epochs n time)
        = some (r.receiveEpochs device time advert n (classify device.epochs n time)) ∧
      ∀ e ∈ r.receiveEpochs device time advert n (classify device.epochs n time), EpochOk e := by
  cases hclass : classify device.epochs n time with
  | isDuplicate => exact ⟨rfl, h⟩
  | current curEpoch =>
      have hcur := (h curEpoch (List.mem_of_getLast? (classify_current hclass))).symbols
      simp only [receiveEpochsIn, receiveEpochs, receiveAdvertIn_eq hn hcur]
      cases hepochs : device.epochs.dropLast with
      | nil => exact ⟨rfl, List.forall_mem_singleton.mpr (receiveAdvert_ok hcur)⟩
      | cons prevEpoch epochs =>
          have hall : ∀ e ∈ prevEpoch :: epochs, EpochOk e :=
            fun e he => h e (List.mem_of_mem_dropLast (hepochs ▸ he))
          obtain ⟨hprev, hrest⟩ := List.forall_mem_cons.mp hall
          refine ⟨?_, ?_⟩
          · simp only [receivePrevSymbolIn_eq hprev.symbols]
            rfl
          · rw [List.forall_mem_append, List.modifyHead_cons, List.forall_mem_cons, List.forall_mem_singleton]
            exact ⟨⟨receivePrevSymbol_ok hprev, hrest⟩, receiveAdvert_ok hcur⟩
  | isNew =>
      have hnew : CodeSize P ec
          (Epoch.new (P := P) n time r.dhCodeMatrix r.dhExchange device.address.yCoord).dhDecoder.matrix := hr
      simp only [receiveEpochsIn, receiveEpochs, receiveAdvertIn_eq hn hnew]
      cases hlast : device.epochs.getLast? with
      | none =>
          have hnil := List.getLast?_eq_none_iff.mp hlast
          rw [hnil]
          exact ⟨rfl, List.forall_mem_singleton.mpr (receiveAdvert_ok hnew)⟩
      | some prevEpoch =>
          have hprev := h prevEpoch (List.mem_of_getLast? hlast)
          refine ⟨?_, ?_⟩
          · simp only [receivePrevSymbolIn_eq hprev.symbols]
            rfl
          · rw [List.forall_mem_append, List.forall_mem_append, List.forall_mem_singleton]
            exact ⟨⟨fun e he => h e (List.mem_of_mem_dropLast he),
              List.forall_mem_singleton.mpr (receivePrevSymbol_ok hprev)⟩, receiveAdvert_ok hnew⟩

theorem processAdvert_ok (data : Mem) :
    r.processAdvertIn device time data = some (r.processAdvert device time data) ∧
      ∀ e ∈ (r.processAdvert device time data).2.epochs, EpochOk e := by
  unfold processAdvertIn processAdvert
  dsimp only
  split
  next hn =>
    obtain ⟨heq, hok⟩ := @receiveEpochs_ok P _ ec (BitMap.ofMem (31 * 8) data) _ r device time hr h hn
    generalize classify device.epochs _ time = advertClass at heq hok ⊢
    cases advertClass with
    | isDuplicate => exact ⟨rfl, h⟩
    | current curEpoch => exact ⟨congrArg (Option.map _) heq, hok⟩
    | isNew => exact ⟨congrArg (Option.map _) heq, hok⟩
  next => exact ⟨rfl, h⟩

end

/-! ## processEpochs -/

variable (g) in
theorem decodeEpochIn_eq (r : EbNRadioBT4 P ec) (h : EpochOk e) (device : EbNDevice P) :
    decodeEpochIn g r e device = some (decodeEpoch g r e device) := by
  unfold decodeEpochIn decodeEpoch
  split
  next hguard =>
    obtain ⟨hundecoded, -⟩ := Bool.and_eq_true_iff.mp hguard
    obtain ⟨last, hlast⟩ := Option.ne_none_iff_exists'.mp
      (mt List.getLast?_eq_none_iff.mp (h.blooms (by simpa using hundecoded)))
    rw [hlast]
    cases e.dhDecoder.decode g with
    | mk result dhDecoder => cases result <;> rfl
  next => rfl

variable (g) in
theorem decodeEpoch_ok (r : EbNRadioBT4 P ec) (h : EpochOk e) (device : EbNDevice P) :
    EpochOk (decodeEpoch g r e device).1 := by
  have hblooms := (decodeEpoch_same g r e device).2
  have hmatrix := decode_matrix (g := g) e.dhDecoder
  unfold decodeEpoch at hblooms ⊢
  split
  next hguard =>
    obtain ⟨hundecoded, -⟩ := Bool.and_eq_true_iff.mp hguard
    have hthere := h.blooms (by simpa using hundecoded)
    cases hdecode : e.dhDecoder.decode g with
    | mk result dhDecoder =>
        rw [hdecode] at hmatrix
        have hsymbols : CodeSize P ec dhDecoder.matrix := by
          rw [show dhDecoder.matrix = e.dhDecoder.matrix from hmatrix]
          exact h.symbols
        cases result with
        | none => exact ⟨hsymbols, fun _ => hthere⟩
        | some dhRemotePublic => exact ⟨hsymbols, fun _ => hthere⟩
  next => exact h

/-- The last filter of the list is there until the loop comes to it. -/
theorem processBloomsIn_eq (r : EbNRadioBT4 P ec) (dhRemotePublic : List Byte) (decodeBloomNum lastNum : Nat)
    (blooms kept : List (Nat × SegmentedBloomFilter P)) (hlast : ∀ last ∈ blooms.getLast?, last.1 = lastNum)
    (device : EbNDevice P) :
    processBloomsIn sha256 r dhRemotePublic decodeBloomNum kept blooms device
      = some (kept ++ (processBlooms sha256 r dhRemotePublic decodeBloomNum lastNum blooms device).1,
          (processBlooms sha256 r dhRemotePublic decodeBloomNum lastNum blooms device).2) := by
  induction blooms generalizing kept device with
  | nil => rw [processBloomsIn, processBlooms, List.append_nil]
  | cons first blooms ih =>
      obtain ⟨bloomNum, bloom⟩ := first
      have hrest : ∀ last ∈ blooms.getLast?, last.1 = lastNum := by
        intro last hin
        refine hlast last ?_
        rw [List.getLast?_cons, Option.mem_def.mp hin]
        rfl
      rw [processBloomsIn, processBlooms]
      generalize processBloom sha256 r dhRemotePublic decodeBloomNum bloomNum bloom device = processed
      have hback : ∃ last, (kept ++ (bloomNum, processed.1) :: blooms).getLast? = some last ∧ last.1 = lastNum := by
        rw [List.getLast?_append, List.getLast?_cons]
        cases hblooms : blooms.getLast? with
        | none =>
            refine ⟨_, rfl, hlast (bloomNum, bloom) ?_⟩
            rw [List.getLast?_cons, hblooms]
            rfl
        | some last => exact ⟨_, rfl, hrest last hblooms⟩
      obtain ⟨last, hlookup, rfl⟩ := hback
      rw [hlookup, Option.bind_eq_bind, Option.bind_some]
      split_ifs
      · exact ih kept hrest processed.2
      · rw [ih _ hrest processed.2, List.append_assoc, List.singleton_append]

variable (sha256 g) in
theorem processEpochIn_eq (r : EbNRadioBT4 P ec) (h : EpochOk e) (device : EbNDevice P) :
    processEpochIn sha256 g r e device = some (processEpoch sha256 g r e device) := by
  unfold processEpochIn processEpoch
  rw [decodeEpochIn_eq g r h]
  dsimp only [Option.bind_eq_bind, Option.bind_some]
  generalize decodeEpoch g r e device = decoded
  cases hdecoded : decoded.1.dhDecoder.isDecoded with
  | false => rfl
  | true =>
      cases hlast : decoded.1.blooms.getLast? with
      | none => rw [if_neg fun hand => hand.2 (List.getLast?_eq_none_iff.mp hlast)]; rfl
      | some last =>
          have hne : decoded.1.blooms ≠ [] := fun hnil => by rw [hnil] at hlast; cases hlast
          rw [if_pos ⟨rfl, hne⟩, processBloomsIn_eq r _ _ last.1 _ _ (fun last' hin => ?_)]
          · rfl
          · rw [hlast] at hin
            rw [Option.some.inj hin]

variable (sha256 g) in
theorem processEpoch_ok (r : EbNRadioBT4 P ec) (h : EpochOk e) (device : EbNDevice P) :
    EpochOk (processEpoch sha256 g r e device).1 := by
  have hdecode := decodeEpoch_ok g r h device
  obtain ⟨-, hdecoder⟩ := @processEpoch_decoder P _ ec sha256 g r e device
  refine ⟨hdecoder ▸ hdecode.symbols, fun hundecoded => ?_⟩
  rw [hdecoder] at hundecoded
  have hblooms := hdecode.blooms hundecoded
  unfold processEpoch
  dsimp only
  split
  next htrue _ => exact absurd (hundecoded.symm.trans htrue) Bool.noConfusion
  next => exact hblooms

section
variable (r : EbNRadioBT4 P ec) {epochs : List (Epoch P ec)} (h : ∀ e ∈ epochs, EpochOk e)
include h

variable (sha256 g) in
theorem processEpochsFrom_ok (kept : Nat) (device : EbNDevice P) :
    processEpochsFromIn sha256 g r kept epochs device = some (processEpochsFrom sha256 g r kept epochs device) ∧
      ∀ e ∈ (processEpochsFrom sha256 g r kept epochs device).1, EpochOk e := by
  induction epochs generalizing kept device with
  | nil => exact ⟨rfl, h⟩
  | cons e epochs ih =>
      obtain ⟨he, hepochs⟩ := List.forall_mem_cons.mp h
      have hfirst := processEpoch_ok sha256 g r he device
      rw [processEpochsFromIn, processEpochsFrom, processEpochIn_eq sha256 g r he, Option.bind_eq_bind,
        Option.bind_some]
      dsimp only
      split_ifs
      · exact ih hepochs kept _
      · obtain ⟨hrest, hok⟩ := ih hepochs (kept + 1) (processEpoch sha256 g r e device).2
        rw [hrest]
        exact ⟨rfl, List.forall_mem_cons.mpr ⟨hfirst, hok⟩⟩

end

variable (sha256 g) in
/-- Of the epochs at most two are kept, and those that are not the last one are not decoded. -/
theorem processEpochsFrom_kept (r : EbNRadioBT4 P ec) {kept : Nat} (hkept : kept ≤ 1) {epochs : List (Epoch P ec)}
    (hepochs : epochs ≠ []) (device : EbNDevice P) :
    kept + (processEpochsFrom sha256 g r kept epochs device).1.length ≤ 2 ∧
      ∀ e ∈ (processEpochsFrom sha256 g r kept epochs device).1.dropLast, e.dhDecoder.isDecoded = false := by
  induction epochs generalizing kept device with
  | nil => exact absurd rfl hepochs
  | cons e epochs ih =>
      rw [processEpochsFrom]
      dsimp only
      split_ifs with hremoved
      · exact ih hkept hremoved.1 _
      · cases epochs with
        | nil => exact ⟨Nat.succ_le_succ hkept, fun e he => by cases he⟩
        | cons e' epochs =>
            -- nothing is in front of an epoch that is kept before the last one
            obtain ⟨hundecoded, hroom⟩ := not_or.mp (not_and.mp hremoved (List.cons_ne_nil _ _))
            rw [List.length_cons] at hroom
            obtain ⟨hlength, hpast⟩ := ih (by omega : kept + 1 ≤ 1) (List.cons_ne_nil _ _)
              (processEpoch sha256 g r e device).2
            have hne : (processEpochsFrom sha256 g r (kept + 1) (e' :: epochs)
                (processEpoch sha256 g r e device).2).1 ≠ [] := by
              obtain ⟨init, last, hrest, -⟩ := processEpochsFrom_last sha256 g r
                ((e' :: epochs).getLast (List.cons_ne_nil _ _)) (e' :: epochs).dropLast (kept + 1)
                (processEpoch sha256 g r e device).2
              rw [List.dropLast_append_getLast] at hrest
              rw [hrest]
              exact List.append_ne_nil_of_right_ne_nil _ (List.cons_ne_nil _ _)
            refine ⟨by rw [List.length_cons]; omega, ?_⟩
            rw [List.dropLast_cons_of_ne_nil hne, List.forall_mem_cons]
            exact ⟨Bool.eq_false_iff.mpr hundecoded, hpast⟩

/-! ## Steps -/

/-- What every step keeps of a device. -/
structure EpochsInv (device : EbNDeviceBT4 P ec) : Prop extends EpochsKept device where
  symbols : ∀ e ∈ device.epochs, CodeSize P ec e.dhDecoder.matrix

theorem EpochsInv.ok {device : EbNDeviceBT4 P ec} (h : EpochsInv device) : ∀ e ∈ device.epochs, EpochOk e :=
  fun e he => ⟨h.symbols e he, h.blooms e he⟩

theorem epochsInv_nil {device : EbNDeviceBT4 P ec} (h : device.epochs = []) : EpochsInv device where
  length := by rw [h]; exact Nat.zero_le 2
  past e he := by rw [h] at he; cases he
  blooms e he := by rw [h] at he; cases he
  symbols e he := by rw [h] at he; cases he

theorem receive_inv {r : EbNRadioBT4 P ec} {device : EbNDeviceBT4 P ec} (hr : CodeSize P ec r.dhCodeMatrix)
    (h : EpochsInv device) (time : Time) (data : Mem) :
    receiveIn sha256 g r device time data = some (receive sha256 g r device time data) ∧
      EpochsInv (receive sha256 g r device time data) := by
  obtain ⟨hadvert, hadvertOk⟩ := @processAdvert_ok P _ ec r device time hr h.ok data
  obtain ⟨hepochs, hok⟩ :=
    processEpochsFrom_ok sha256 g r hadvertOk 0 (r.processAdvert device time data).2.toEbNDevice
  constructor
  · rw [receiveIn, hadvert]
    simp only [Option.bind_eq_bind, Option.bind_some, hepochs]
    rfl
  · by_cases hnil : (r.processAdvert device time data).2.epochs = []
    · refine epochsInv_nil ?_
      rw [receive, processEpochs, hnil]
      rfl
    · obtain ⟨hlength, hpast⟩ :=
        processEpochsFrom_kept sha256 g r (Nat.zero_le 1) hnil (r.processAdvert device time data).2.toEbNDevice
      rw [Nat.zero_add] at hlength
      exact ⟨⟨hlength, hpast, fun e he => (hok e he).blooms⟩, fun e he => (hok e he).symbols⟩

theorem changeEpochDeviceIn_eq (r : EbNRadioBT4 P ec) (device : EbNDeviceBT4 P ec) :
    r.changeEpochDeviceIn device = some (r.changeEpochDevice device) := by
  unfold changeEpochDeviceIn changeEpochDevice
  cases hlast : device.epochs.getLast? with
  | none =>
      rw [if_neg (not_not_intro (List.getLast?_eq_none_iff.mp hlast))]
  | some curEpoch =>
      have hne : device.epochs ≠ [] := fun hnil => by rw [hnil] at hlast; cases hlast
      rw [if_pos hne, Option.bind_eq_bind, Option.bind_some]
      dsimp only
      split_ifs
      · generalize r.dhExchange.computeSharedSecretXY _ _ _ = sharedSecret
        cases sharedSecret <;> rfl
      · rfl

theorem changeEpochDevice_inv (r : EbNRadioBT4 P ec) {device : EbNDeviceBT4 P ec} (h : EpochsInv device) :
    EpochsInv (r.changeEpochDevice device) := by
  unfold changeEpochDevice
  split
  next => exact h
  next curEpoch hlast =>
    have hcur := List.mem_of_getLast? hlast
    split_ifs
    · split
      · exact ⟨⟨h.length, h.past, h.blooms⟩, h.symbols⟩
      · exact h
    · have hsplit := List.dropLast_append_getLast? curEpoch hlast
      refine ⟨⟨?_, ?_, ?_⟩, ?_⟩
      · have hlength := h.length
        rw [← hsplit] at hlength
        simpa using hlength
      · dsimp only
        rw [List.dropLast_concat]
        exact h.past
      · dsimp only
        rw [List.forall_mem_append, List.forall_mem_singleton]
        exact ⟨fun e he => h.blooms e (List.mem_of_mem_dropLast he), h.blooms curEpoch hcur⟩
      · dsimp only
        rw [List.forall_mem_append, List.forall_mem_singleton]
        exact ⟨fun e he => h.symbols e (List.mem_of_mem_dropLast he), h.symbols curEpoch hcur⟩

/-! ## Runs -/

/-- The device `id`, if the radio has it, and the matrix that new epochs are given. -/
structure RadioInv (id : DeviceID) (r : EbNRadioBT4 P ec) : Prop where
  matrix : CodeSize P ec r.dhCodeMatrix
  device : ∀ device, r.heap id = some device → EpochsInv device

variable {id : DeviceID} {r : EbNRadioBT4 P ec}

theorem onEpochEvent_inv (h : RadioInv id r) (event : EpochEvent ec) :
    RadioInv id (onEpochEvent sha256 g r event) := by
  cases event with
  | advert i time data =>
      refine ⟨h.matrix, fun device hdevice => ?_⟩
      rw [onEpochEvent] at hdevice
      dsimp only at hdevice
      rw [Function.update_apply] at hdevice
      split at hdevice
      next hid =>
        obtain ⟨device', hdevice', rfl⟩ := Option.map_eq_some_iff.mp hdevice
        exact (receive_inv h.matrix (h.device device' (hid ▸ hdevice')) time data).2
      next => exact h.device device hdevice
  | changeEpoch key randomAddress =>
      refine ⟨h.matrix, fun device hdevice => ?_⟩
      dsimp only [onEpochEvent, changeEpoch] at hdevice
      split at hdevice
      next =>
        beta_reduce at hdevice
        split at hdevice
        next =>
          obtain ⟨device', hdevice', rfl⟩ := Option.map_eq_some_iff.mp hdevice
          exact changeEpochDevice_inv _ (h.device device' hdevice')
        next => exact h.device device hdevice
      next => exact h.device device hdevice

theorem foldl_onEpochEvent_inv (h : RadioInv id r) (events : List (EpochEvent ec)) :
    RadioInv id (events.foldl (onEpochEvent sha256 g) r) := by
  induction events generalizing r with
  | nil => exact h
  | cons event events ih => exact ih (onEpochEvent_inv h event)

/-- The matrix is that of the constructor. -/
theorem Reachable.codeSize (h : Reachable sha256 g r) : CodeSize P ec r.dhCodeMatrix := by
  induction h with
  | new hnew =>
      obtain ⟨matrix, hmatrix, rfl⟩ := Option.map_eq_some_iff.mp hnew
      obtain ⟨parts, -, rfl⟩ := Option.map_eq_some_iff.mp hmatrix
      rfl
  | changeEpoch _ key randomAddress ih => exact ih
  | @generateAdvert r _ rand advertNum ih =>
      obtain ⟨hmatrix, -⟩ := updateBloom_fields sha256 r rand advertNum
      exact hmatrix ▸ ih
  | other _ base ih => exact ih

end Sddr.Radio.EbNRadioBT4
