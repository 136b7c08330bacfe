import Sddr.Radio.Lemmas.BT4Receiver
import Sddr.Radio.Window

/-!
# Any `K` consecutive adverts decode

While a window is heard, `Progress` says what is still to come and which symbols have been gathered.
-/

namespace Sddr.Radio.EbNRadioBT4
open Sddr.Lib Sddr.Codec Sddr.Device Sddr.Erasure BT4

variable {P : Type} [FloatOps P] {ec : Ec} {sha256 : List Byte → Digest} {g : Galois} {parts : List Part}

/-! ## The sender -/

section
variable {r : EbNRadioBT4 P ec}

/-- A filter is new, or it is the one that was kept for its number. -/
theorem updateBloom_isFilter {rand : Nat → Nat} {n : Nat}
    (h : r.advertBloomNum = n / 2 → IsFilter ec (n / 2) r.advertBloom) :
    IsFilter ec (n / 2) (updateBloom sha256 rand r n).advertBloom := by
  unfold updateBloom
  dsimp only
  split_ifs with hnew
  · exact isFilter_filled rand r n
  · exact h (not_not.mp (not_or.mp hnew).2).symm

/-- The filter that is kept belongs to its number. -/
theorem Reachable.isFilter (h : Reachable sha256 g r) {m : Nat} (hm : m < 2 ^ 32) (hnum : r.advertBloomNum = m) :
    IsFilter ec m r.advertBloom := by
  induction h generalizing m with
  | new h =>
      obtain ⟨_, _, rfl⟩ := Option.map_eq_some_iff.mp h
      dsimp only at hnum
      omega
  | changeEpoch _ key randomAddress ih => exact ih hm hnum
  | @generateAdvert r _ rand n ih =>
      have hkept : (updateBloom sha256 rand r n).advertBloomNum = n / 2 := by
        unfold updateBloom
        dsimp only
        split_ifs with hnew
        · rfl
        · exact (not_not.mp (not_or.mp hnew).2).symm
      obtain rfl : n / 2 = m := hkept.symm.trans hnum
      exact updateBloom_isFilter fun heq => ih hm heq
  | other _ base ih => exact ih hm hnum

variable (plan : EpochPlan P ec) {plans : Nat → EpochPlan P ec}

/-- What the adverts of an epoch take from the radio does not change in the epoch. -/
theorem EpochPlan.radio_spec (h : Reachable sha256 g r) (n : Nat) :
    let r' := plan.radio sha256 r n
    Reachable sha256 g r' ∧ r'.dhEncoder = r.dhEncoder ∧ r'.dhPrevSymbols = r.dhPrevSymbols ∧
      r'.dhExchange = r.dhExchange := by
  induction n with
  | zero => exact ⟨h.other _, rfl, rfl, rfl⟩
  | succ n ih =>
      obtain ⟨hreach, hencoder, hprev, hexchange⟩ := ih
      obtain ⟨_, hencoder', hprev', hexchange', _⟩ := updateBloom_fields sha256 (plan.radio sha256 r n) (plan.rand n) n
      exact ⟨(hreach.generateAdvert (plan.rand n) n).other _, hencoder'.trans hencoder, hprev'.trans hprev,
        hexchange'.trans hexchange⟩

variable (plans) in
theorem epochSender_reachable (h : Reachable sha256 g r) (e : Nat) :
    Reachable sha256 g (epochSender sha256 g plans r e) := by
  induction e with
  | zero => exact h
  | succ e ih => exact ((plans e).radio_spec ih (plans e).count).1.changeEpoch (plans e).key (plans e).randomAddress

/-- The symbols of epoch `e`. -/
abbrev epochSymbols (sha256 : List Byte → Digest) (g : Galois) (plans : Nat → EpochPlan P ec) (r : EbNRadioBT4 P ec)
    (e : Nat) : List PartSymbols :=
  (epochSender sha256 g plans r e).dhEncoder.partSymbols

variable (plans) in
/-- What a receiver finds in advert `n` of epoch `e`. -/
theorem advert_symbols (hvalues : ConfirmValues P) (hcode : Code g P ec parts) (h : Reachable sha256 g r) (e n : Nat)
    (hn : n < ADV_N) :
    let advert := BitMap.ofMem (31 * 8) (Mem.ofList (epochAdvert sha256 g plans r e n))
    advert.readNumber 1 ADV_N_LOG2 = n ∧
      (readSymbol P ec advert (1 + ADV_N_LOG2)).take (RS_W P ec) = storeSymbol (epochSymbols sha256 g plans r e) n ∧
      ∀ e', e = e' + 1 → n < RS_K P ec - 1 →
        (readSymbol P ec advert (1 + ADV_N_LOG2 + 8 * RS_W P ec)).take (RS_W P ec)
          = storeSymbol (epochSymbols sha256 g plans r e') (n + RS_K P ec + RS_M P ec) := by
  obtain ⟨_, _, hK4, _⟩ := size_facts hvalues ec
  obtain ⟨hreach, hencoder, hprev, _⟩ := (plans e).radio_spec (epochSender_reachable plans h e) n
  have hfilter : IsFilter ec (n / 2) (updateBloom sha256 ((plans e).rand n)
      ((plans e).radio sha256 (epochSender sha256 g plans r e) n) n).advertBloom := by
    refine updateBloom_isFilter fun heq => hreach.isFilter ?_ heq
    simp only [ADV_N, EPOCH_INTERVAL, SCAN_INTERVAL] at hn
    omega
  obtain ⟨hnumber, hsymbol, hprevSymbol⟩ := (hreach.built hvalues hcode).header hvalues hcode hfilter hn
  refine ⟨hnumber, hsymbol.trans (by rw [hencoder]), fun e' he hfirst => ?_⟩
  refine (hprevSymbol hfirst).trans ?_
  subst he
  obtain ⟨hend, hencoder', -, -⟩ := (plans e').radio_spec (epochSender_reachable plans h e') (plans e').count
  rw [prevSymbol, hprev]
  refine (prevSymbol_changeEpoch hcode (hend.built hvalues hcode) (by omega) (plans e').key (plans e').randomAddress
    hfirst).trans ?_
  rw [hencoder']

end

/-! ## Symbols that are gathered -/

variable {X : List Byte} {qs : List PartSymbols} {e e' : Epoch P ec} {count bound index n : Nat}
  {receiver : EbNRadioBT4 P ec} {device : EbNDevice P} {target : EbNDeviceBT4 P ec}

/-- The epoch has `count` different symbols of `X`, with indices below `bound`, and has not decoded it. -/
structure Gathers (parts : List Part) (qs : List PartSymbols) (X : List Byte) (count bound : Nat) (e : Epoch P ec) :
    Prop where
  decoder : ∃ S : Finset Nat, S.card = count ∧ (∀ i ∈ S, i < bound) ∧
    DecoderInv (RS_K P ec) (RS_M P ec + 2 * (RS_K P ec - 1)) parts qs X S e.dhDecoder
  undecoded : e.dhDecoder.isDecoded = false

theorem Gathers.new (hcode : Code g P ec parts)
    (hqs : CodeOf g (RS_K P ec) (RS_M P ec + 2 * (RS_K P ec - 1)) parts X qs) (bound : Nat) (advertTime : Time)
    (dhExchange : ECDH ec) (yCoord : Bool) (hr : Built g parts receiver) :
    Gathers parts qs X 0 bound (Epoch.new (P := P) n advertTime receiver.dhCodeMatrix dhExchange yCoord) where
  decoder := by
    have hnew := DecoderInv.new (K := RS_K P ec) (M := RS_M P ec + 2 * (RS_K P ec - 1)) X hqs.parts
    rw [hcode.width] at hnew
    rw [hr.matrix]
    exact ⟨∅, rfl, fun i hi => absurd hi (Finset.notMem_empty i), hnew⟩
  undecoded := rfl

theorem Gathers.mono (h : Gathers parts qs X count bound e) (hle : bound ≤ index) :
    Gathers parts qs X count index e := by
  obtain ⟨S, hcard, hbound, hinv⟩ := h.decoder
  exact ⟨⟨S, hcard, fun i hi => Nat.lt_of_lt_of_le (hbound i hi) hle, hinv⟩, h.undecoded⟩

/-- A symbol with a new index is one more. -/
theorem Gathers.setSymbol (h : Gathers parts qs X count bound e) (hcode : Code g P ec parts)
    (hqs : CodeOf g (RS_K P ec) (RS_M P ec + 2 * (RS_K P ec - 1)) parts X qs) (hle : bound ≤ index)
    {data : Mem} {d : Epoch P ec}
    (hdata : data.take (RS_W P ec) = storeSymbol qs index)
    (hd : d.dhDecoder = (e.dhDecoder.setSymbol index data).2) : Gathers parts qs X (count + 1) (index + 1) d := by
  obtain ⟨S, hcard, hbound, hinv⟩ := h.decoder
  have hnew : index ∉ S := fun hin => absurd (hbound index hin) (Nat.not_lt.mpr hle)
  rw [← hcode.width, ← hqs.symbolWidth] at hdata
  refine ⟨⟨insert index S, ?_, fun i hi => ?_, ?_⟩, ?_⟩
  · rw [Finset.card_insert_of_notMem hnew, hcard]
  · rcases Finset.mem_insert.mp hi with rfl | hi
    · exact Nat.lt_succ_self i
    · exact Nat.lt_succ_of_lt (Nat.lt_of_lt_of_le (hbound i hi) hle)
  · rw [hd]
    exact hinv.setSymbol (fun q hq => (hqs.encoded q hq).1.le) hdata
  · rw [hd, RSErasureDecoder.setSymbol]
    split <;> exact h.undecoded

theorem Gathers.canDecode (h : Gathers parts qs X count bound e) :
    e.dhDecoder.canDecode = decide (RS_K P ec ≤ count) := by
  obtain ⟨S, hcard, -, hinv⟩ := h.decoder
  rw [RSErasureDecoder.canDecode, hinv.numReceived, hinv.matrix, hcard]

/-! ## Processing -/

/-- Nothing happens to the epoch while it is processed. -/
def Waits (e : Epoch P ec) : Prop := e.dhDecoder.isDecoded = false ∧ e.dhDecoder.canDecode = false

theorem Gathers.waits (h : Gathers parts qs X count bound e) (hlt : count < RS_K P ec) : Waits e :=
  ⟨h.undecoded, h.canDecode.trans (decide_eq_false (Nat.not_le.mpr hlt))⟩

variable (sha256 g) in
theorem Waits.processEpoch (h : Waits e) (r : EbNRadioBT4 P ec) (device : EbNDevice P) :
    processEpoch sha256 g r e device = (e, device) := by
  have hdecode : decodeEpoch g r e device = (e, device) := by
    unfold decodeEpoch
    rw [h.1, h.2]
    rfl
  unfold EbNRadioBT4.processEpoch
  rw [hdecode]
  dsimp only
  rw [h.1]

variable (sha256 g) in
theorem processEpochsFrom_wait (r : EbNRadioBT4 P ec) {epochs : List (Epoch P ec)} (hall : ∀ e ∈ epochs, Waits e)
    (kept : Nat) (hkept : kept + epochs.length ≤ 2) (device : EbNDevice P) :
    processEpochsFrom sha256 g r kept epochs device = (epochs, device) ∧
      visitEpochs sha256 g r epochs device = epochs.map fun e => (e, e) := by
  induction epochs generalizing kept with
  | nil => exact ⟨rfl, rfl⟩
  | cons e epochs ih =>
      have hwaits := hall e List.mem_cons_self
      have hprocess := hwaits.processEpoch sha256 g r device
      rw [List.length_cons] at hkept
      obtain ⟨hfrom, hvisit⟩ := ih (fun e he => hall e (List.mem_cons_of_mem _ he)) (kept + 1) (by omega)
      constructor
      · rw [processEpochsFrom, hprocess]
        dsimp only
        rw [if_neg, hfrom]
        rintro ⟨-, hdone | hmany⟩
        · rw [hwaits.1] at hdone
          cases hdone
        · omega
      · rw [visitEpochs, hprocess, List.map_cons, ← hvisit]

variable (sha256 g receiver) in
/-- Epochs that wait are left as they are. -/
theorem processEpochs_wait (hall : ∀ e ∈ target.epochs, Waits e) (hlength : target.epochs.length ≤ 2) :
    processEpochs sha256 g receiver target = target ∧ decodedKeys sha256 g receiver target = [] := by
  obtain ⟨hfrom, hvisit⟩ := processEpochsFrom_wait sha256 g receiver hall 0 (by omega) target.toEbNDevice
  constructor
  · rw [processEpochs, hfrom]
  · rw [decodedKeys, hvisit, List.map_eq_nil_iff, List.filter_eq_nil_iff]
    intro p hp
    obtain ⟨e, he, rfl⟩ := List.mem_map.mp hp
    simp [(hall e he).1]

variable (sha256) in
/-- The data of an epoch with `K` symbols is its key. -/
theorem Gathers.processEpoch_done (h : Gathers parts qs X count bound e) (hvalues : ConfirmValues P)
    (hqs : CodeOf g (RS_K P ec) (RS_M P ec + 2 * (RS_K P ec - 1)) parts X qs) (hcount : RS_K P ec ≤ count)
    (hbound : bound ≤ symbolCount P ec) (r : EbNRadioBT4 P ec) (device : EbNDevice P) :
    (processEpoch sha256 g r e device).1.dhDecoder.isDecoded = true ∧
      (processEpoch sha256 g r e device).1.dhDecoder.data = X := by
  obtain ⟨_, _, hK4, _⟩ := size_facts hvalues ec
  have hcan := h.canDecode.trans (decide_eq_true hcount)
  obtain ⟨S, hcard, hS, hinv⟩ := h.decoder
  obtain ⟨hnext, hresult⟩ := hinv.decode (by omega) hqs fun i hi => Nat.lt_of_lt_of_le (hS i hi) hbound
  have hdone : (e.dhDecoder.decode g).2.isDecoded = true := by
    rw [RSErasureDecoder.decode, h.undecoded, hcan]
    rfl
  have hdecoder : (decodeEpoch g r e device).1.dhDecoder = (e.dhDecoder.decode g).2 := by
    unfold decodeEpoch
    rw [h.undecoded, hcan]
    cases e.dhDecoder.decode g with
    | mk result dhDecoder => cases result <;> rfl
  rw [(processEpoch_decoder r e device).2, hdecoder]
  exact ⟨hdone, hnext.data hdone⟩

/-- The first epoch is decoded, and any other one waits. -/
theorem decodedKeys_done {rest : List (Epoch P ec)} (hepochs : target.epochs = e :: rest)
    (h : Gathers parts qs X count bound e) (hvalues : ConfirmValues P)
    (hqs : CodeOf g (RS_K P ec) (RS_M P ec + 2 * (RS_K P ec - 1)) parts X qs) (hcount : RS_K P ec ≤ count)
    (hbound : bound ≤ symbolCount P ec) (hrest : ∀ e ∈ rest, Waits e) (hlength : rest.length ≤ 2) :
    decodedKeys sha256 g receiver target = [X] := by
  obtain ⟨hdone, hdata⟩ := h.processEpoch_done sha256 hvalues hqs hcount hbound receiver target.toEbNDevice
  obtain ⟨-, hvisit⟩ := processEpochsFrom_wait sha256 g receiver hrest 0 (by omega)
    (processEpoch sha256 g receiver e target.toEbNDevice).2
  have hnone : (rest.map fun e => (e, e)).filter
      (fun p : Epoch P ec × Epoch P ec => !p.1.dhDecoder.isDecoded && p.2.dhDecoder.isDecoded) = [] := by
    rw [List.filter_eq_nil_iff]
    intro p hp
    obtain ⟨e, he, rfl⟩ := List.mem_map.mp hp
    simp [(hrest e he).1]
  rw [decodedKeys, hepochs, visitEpochs, hvisit, List.filter_cons_of_pos (by simp [h.undecoded, hdone]), hnone,
    List.map_cons, hdata, List.map_nil]

theorem changeEpochDevice_decoders (r : EbNRadioBT4 P ec) (device : EbNDeviceBT4 P ec) :
    List.Forall₂ (fun e e' : Epoch P ec => e'.dhDecoder = e.dhDecoder) device.epochs (r.changeEpochDevice device).epochs := by
  rcases (changeEpochDevice_spec r device).2 with heq | ⟨curEpoch, dhExchanges, hlast, heq⟩
  · rw [heq]
    exact List.forall₂_same.mpr fun _ _ => rfl
  · rw [heq]
    conv_lhs => rw [← List.dropLast_append_getLast? curEpoch hlast]
    exact List.rel_append (R := fun e e' : Epoch P ec => e'.dhDecoder = e.dhDecoder)
      (List.forall₂_same.mpr fun _ _ => rfl) (.cons rfl .nil)

/-! ## Hearing a window -/

omit [FloatOps P] in
theorem Attributed.isNew {advertClass : AdvertClass (Epoch P ec)} (h : Attributed true advertClass) :
    advertClass = .isNew := by
  cases advertClass with
  | isNew => rfl
  | isDuplicate => exact h.elim
  | current curEpoch => cases h

omit [FloatOps P] in
theorem Attributed.current {epochs : List (Epoch P ec)} {time : Time}
    (h : Attributed false (classify epochs n time)) (hlast : epochs.getLast? = some e) :
    classify epochs n time = .current e := by
  cases hclass : classify epochs n time with
  | isNew => rw [hclass] at h; cases h
  | isDuplicate => rw [hclass] at h; exact h.elim
  | current curEpoch =>
      have heq := (classify_current hclass).symm.trans hlast
      cases heq
      rfl

section
variable {sender : EbNRadioBT4 P ec} {plans : Nat → EpochPlan P ec} {k a b : Nat} {l : Listener P ec}
  {rem : List (Nat × Nat)}

/-- `a` adverts of epoch `k` from number `n` on, and `b` of the next epoch. -/
abbrev remaining (k n a b : Nat) : List (Nat × Nat) :=
  (List.range' n a).map (Prod.mk k) ++ (List.range b).map (Prod.mk (k + 1))

/-- The epoch gathers the symbols of the sender's epoch `k`. -/
abbrev GathersOf (sha256 : List Byte → Digest) (g : Galois) (parts : List Part) (plans : Nat → EpochPlan P ec)
    (sender : EbNRadioBT4 P ec) (k count bound : Nat) (e : Epoch P ec) : Prop :=
  Gathers parts (epochSymbols sha256 g plans sender k) (epochSender sha256 g plans sender k).publicBlock count bound e

/-- What is still to be heard of a window that starts in epoch `k`, and what has been gathered. -/
inductive Progress (sha256 : List Byte → Digest) (g : Galois) (parts : List Part) (plans : Nat → EpochPlan P ec)
    (sender : EbNRadioBT4 P ec) (k : Nat) (rem : List (Nat × Nat)) (l : Listener P ec) : Prop where
  /-- Nothing has been heard. -/
  | start (n a b : Nat) (hrem : rem = remaining k n a b) (hsum : a + b = RS_K P ec) (ha : 0 < a) (hlt : n + a ≤ ADV_N)
      (hepochs : l.device.epochs = []) (hopened : l.opened = none) (hdecoded : l.decoded = [])
  /-- Adverts of epoch `k` have been heard. -/
  | current (n a b count : Nat) (e : Epoch P ec) (hrem : rem = remaining k n a b)
      (hsum : count + a + b = RS_K P ec) (hcount : 0 < count) (hmore : 0 < a + b) (hlt : n + a ≤ ADV_N)
      (hepochs : l.device.epochs = [e])
      (he : GathersOf sha256 g parts plans sender k count n e) (hopened : l.opened = some k) (hdecoded : l.decoded = [])
  /-- The first `n` adverts of the next epoch have been heard too. -/
  | next (n b count : Nat) (e e' : Epoch P ec) (hrem : rem = (List.range' n b).map (Prod.mk (k + 1)))
      (hsum : count + b = RS_K P ec) (hmore : 0 < b) (hcount : n < count) (hepochs : l.device.epochs = [e, e'])
      (he : GathersOf sha256 g parts plans sender k count (RS_K P ec + RS_M P ec + n) e)
      (he' : GathersOf sha256 g parts plans sender (k + 1) n n e') (hopened : l.opened = some (k + 1))
      (hdecoded : l.decoded = [])
  /-- The whole window has been heard. -/
  | done (hrem : rem = []) (hdecoded : l.decoded = [(epochSender sha256 g plans sender k).publicBlock])

theorem Progress.decoded (h : Progress sha256 g parts plans sender k [] l) :
    l.decoded = [(epochSender sha256 g plans sender k).publicBlock] := by
  cases h with
  | start n a b hrem hsum ha => simp [remaining] at hrem; omega
  | current n a b count e hrem hsum hcount hmore => simp [remaining] at hrem; omega
  | next n b count e e' hrem hsum hmore => simp at hrem; omega
  | done hrem hdecoded => exact hdecoded

variable (hvalues : ConfirmValues P) (hcode : Code g P ec parts) (hsender : Reachable sha256 g sender)

include hvalues hcode hsender

variable (plans) in
theorem codeOf_epoch (k : Nat) : CodeOf g (RS_K P ec) (RS_M P ec + 2 * (RS_K P ec - 1)) parts
    (epochSender sha256 g plans sender k).publicBlock (epochSymbols sha256 g plans sender k) := by
  obtain ⟨_, _, hK4, _⟩ := size_facts hvalues ec
  exact (((epochSender_reachable plans hsender k).built hvalues hcode).codeOf hcode (by omega)).1

/-- After an advert of epoch `k`, the key is decoded if the window is over. -/
theorem settle_current {n count : Nat} (hsum : count + a + b = RS_K P ec) (hcount : 0 < count) (hlt : n + a ≤ ADV_N)
    (hepochs : target.epochs = [e]) (he : GathersOf sha256 g parts plans sender k count n e) :
    Progress sha256 g parts plans sender k (remaining k n a b) ⟨processEpochs sha256 g receiver target, some k,
      decodedKeys sha256 g receiver target⟩ := by
  have hADV := symbols_per_epoch hvalues ec
  by_cases hmore : 0 < a + b
  · have hwaits : ∀ e ∈ target.epochs, Waits e := by
      intro e' hin
      rw [hepochs, List.mem_singleton] at hin
      subst hin
      exact he.waits (by omega)
    obtain ⟨hprocess, hkeys⟩ := processEpochs_wait sha256 g receiver hwaits
      (by simp [hepochs])
    rw [hprocess, hkeys]
    exact .current n a b count e rfl hsum hcount hmore hlt hepochs he rfl rfl
  · obtain ⟨rfl, rfl⟩ : a = 0 ∧ b = 0 := by omega
    refine .done rfl (decodedKeys_done hepochs he hvalues (codeOf_epoch plans hvalues hcode hsender k) (by omega) ?_
      (fun e he => by cases he) (Nat.zero_le 2))
    unfold symbolCount
    omega

/-- After an advert of the next epoch, likewise. -/
theorem settle_next {n count : Nat} (hsum : count + b = RS_K P ec) (hcount : n < count)
    (hepochs : target.epochs = [e, e']) (he : GathersOf sha256 g parts plans sender k count (RS_K P ec + RS_M P ec + n) e)
    (he' : GathersOf sha256 g parts plans sender (k + 1) n n e') :
    Progress sha256 g parts plans sender k ((List.range' n b).map (Prod.mk (k + 1)))
      ⟨processEpochs sha256 g receiver target, some (k + 1), decodedKeys sha256 g receiver target⟩ := by
  have hwaits' : Waits e' := he'.waits (by omega)
  rcases Nat.eq_zero_or_pos b with rfl | hmore
  · refine .done rfl (decodedKeys_done hepochs he hvalues (codeOf_epoch plans hvalues hcode hsender k) (by omega) ?_
      (fun e hin => by rw [List.mem_singleton.mp hin]; exact hwaits') (by simp))
    unfold symbolCount
    omega
  · have hwaits : ∀ e ∈ target.epochs, Waits e := by
      intro e'' hin
      rw [hepochs] at hin
      rcases List.mem_cons.mp hin with rfl | hin
      · exact he.waits (by omega)
      · rw [List.mem_singleton.mp hin]
        exact hwaits'
    obtain ⟨hprocess, hkeys⟩ := processEpochs_wait sha256 g receiver hwaits
      (by simp [hepochs])
    rw [hprocess, hkeys]
    exact .next n b count e e' rfl hsum hmore hcount hepochs he he' rfl rfl

variable {num : Nat} {time : Time} {rest : List (Nat × Nat)}

/-- The first advert opens a receiver epoch. -/
theorem hear_start {n : Nat} (hsum : a + 1 + b = RS_K P ec) (hlt : n + (a + 1) ≤ ADV_N)
    (hepochs : l.device.epochs = []) (hdecoded : l.decoded = []) (hreceiver : Reachable sha256 g receiver)
    (hattributed : Attributed true (classify l.device.epochs n time)) :
    Progress sha256 g parts plans sender k (remaining k (n + 1) a b)
      (l.step sha256 g (epochAdvert sha256 g plans sender) (.hear k n time receiver)) := by
  have hADV := symbols_per_epoch hvalues ec
  obtain ⟨hnumber, hsymbol, -⟩ := advert_symbols plans hvalues hcode hsender k n (by omega)
  have hadvert := processAdvert_epochs receiver l.device time hnumber (by omega)
  rw [hattributed.isNew, receiveEpochs, hepochs] at hadvert
  have hqs := codeOf_epoch plans hvalues hcode hsender k
  have he := (Gathers.new (n := n) hcode hqs n time receiver.dhExchange l.device.address.yCoord
    (hreceiver.built hvalues hcode)).setSymbol (d := receiveAdvert _ n _) hcode hqs (Nat.le_refl n) hsymbol rfl
  rw [Listener.step, hdecoded, List.nil_append, receive, hadvert]
  exact settle_current hvalues hcode hsender (by omega) (Nat.succ_pos _) (by omega) rfl he

/-- Another advert of the same epoch goes to it. -/
theorem hear_current {n count : Nat} (hsum : count + (a + 1) + b = RS_K P ec) (hlt : n + (a + 1) ≤ ADV_N)
    (hepochs : l.device.epochs = [e]) (he : GathersOf sha256 g parts plans sender k count n e)
    (hdecoded : l.decoded = []) (hattributed : Attributed false (classify l.device.epochs n time)) :
    Progress sha256 g parts plans sender k (remaining k (n + 1) a b)
      (l.step sha256 g (epochAdvert sha256 g plans sender) (.hear k n time receiver)) := by
  have hADV := symbols_per_epoch hvalues ec
  obtain ⟨hnumber, hsymbol, -⟩ := advert_symbols plans hvalues hcode hsender k n (by omega)
  have hadvert := processAdvert_epochs receiver l.device time hnumber (by omega)
  rw [hattributed.current (by rw [hepochs]; rfl), receiveEpochs, hepochs] at hadvert
  have hqs := codeOf_epoch plans hvalues hcode hsender k
  have hnext := he.setSymbol (d := receiveAdvert _ n e) hcode hqs (Nat.le_refl n) hsymbol rfl
  rw [Listener.step, hdecoded, List.nil_append, receive, hadvert]
  exact settle_current hvalues hcode hsender (by omega) (Nat.succ_pos _) (by omega) rfl hnext

/-- The symbol of the epoch before that an early advert carries. -/
theorem receivePrevSymbol_gathers {n count bound : Nat} (hfirst : n < RS_K P ec - 1)
    (hbound : bound ≤ n + RS_K P ec + RS_M P ec) (he : GathersOf sha256 g parts plans sender k count bound e) :
    GathersOf sha256 g parts plans sender k (count + 1) (RS_K P ec + RS_M P ec + (n + 1))
      (receivePrevSymbol (BitMap.ofMem (31 * 8) (Mem.ofList (epochAdvert sha256 g plans sender (k + 1) n))) n e) := by
  have hADV := symbols_per_epoch hvalues ec
  have hlt : n < ADV_N := by omega
  obtain ⟨-, -, hprev⟩ := advert_symbols plans hvalues hcode hsender (k + 1) n hlt
  have hnext := he.setSymbol (d := receivePrevSymbol _ n e) hcode (codeOf_epoch plans hvalues hcode hsender k) hbound
    (hprev k rfl hfirst) (by rw [receivePrevSymbol, if_pos ⟨hfirst, he.undecoded⟩])
  exact hnext.mono (by omega)

/-- The first advert of the next epoch opens another receiver epoch. -/
theorem hear_next_start {n count : Nat} (hsum : count + (b + 1) = RS_K P ec) (hcount : 0 < count) (hlt : n ≤ ADV_N)
    (hepochs : l.device.epochs = [e]) (he : GathersOf sha256 g parts plans sender k count n e) (hdecoded : l.decoded = [])
    (hreceiver : Reachable sha256 g receiver) (hattributed : Attributed true (classify l.device.epochs 0 time)) :
    Progress sha256 g parts plans sender k ((List.range' 1 b).map (Prod.mk (k + 1)))
      (l.step sha256 g (epochAdvert sha256 g plans sender) (.hear (k + 1) 0 time receiver)) := by
  have hADV := symbols_per_epoch hvalues ec
  obtain ⟨_, _, hK4, _⟩ := size_facts hvalues ec
  obtain ⟨hnumber, hsymbol, -⟩ := advert_symbols plans hvalues hcode hsender (k + 1) 0 (by omega)
  have hadvert := processAdvert_epochs receiver l.device time hnumber (by omega)
  rw [hattributed.isNew, receiveEpochs, hepochs] at hadvert
  have hprev := receivePrevSymbol_gathers hvalues hcode hsender (n := 0) (by omega) (by omega) he
  have he' := (Gathers.new (n := 0) hcode (codeOf_epoch plans hvalues hcode hsender (k + 1)) 0 time
    receiver.dhExchange l.device.address.yCoord (hreceiver.built hvalues hcode)).setSymbol
      (d := receiveAdvert _ 0 _) hcode (codeOf_epoch plans hvalues hcode hsender (k + 1)) (Nat.le_refl 0) hsymbol rfl
  rw [Listener.step, hdecoded, List.nil_append, receive, hadvert]
  exact settle_next hvalues hcode hsender (by omega) (by omega) rfl hprev he'

/-- Another advert of the next epoch adds a symbol to each receiver epoch. -/
theorem hear_next {n count : Nat} (hsum : count + (b + 1) = RS_K P ec) (hcount : n < count)
    (hepochs : l.device.epochs = [e, e'])
    (he : GathersOf sha256 g parts plans sender k count (RS_K P ec + RS_M P ec + n) e)
    (he' : GathersOf sha256 g parts plans sender (k + 1) n n e') (hdecoded : l.decoded = [])
    (hattributed : Attributed false (classify l.device.epochs n time)) :
    Progress sha256 g parts plans sender k ((List.range' (n + 1) b).map (Prod.mk (k + 1)))
      (l.step sha256 g (epochAdvert sha256 g plans sender) (.hear (k + 1) n time receiver)) := by
  have hADV := symbols_per_epoch hvalues ec
  obtain ⟨_, _, hK4, _⟩ := size_facts hvalues ec
  obtain ⟨hnumber, hsymbol, -⟩ := advert_symbols plans hvalues hcode hsender (k + 1) n (by omega)
  have hadvert := processAdvert_epochs receiver l.device time hnumber (by omega)
  rw [hattributed.current (by rw [hepochs]; rfl), receiveEpochs, hepochs] at hadvert
  have hprev := receivePrevSymbol_gathers hvalues hcode hsender (n := n) (by omega) (by omega) he
  have hnext := he'.setSymbol (d := receiveAdvert _ n e') hcode (codeOf_epoch plans hvalues hcode hsender (k + 1))
    (Nat.le_refl n) hsymbol rfl
  rw [Listener.step, hdecoded, List.nil_append, receive, hadvert]
  exact settle_next hvalues hcode hsender (by omega) (by omega) rfl hprev hnext

/-- Whichever advert of the window is heard next. -/
theorem Progress.hear (h : Progress sha256 g parts plans sender k ((num, n) :: rest) l)
    (hreceiver : Reachable sha256 g receiver)
    (hattributed : Attributed (decide (l.opened ≠ some num)) (classify l.device.epochs n time)) :
    Progress sha256 g parts plans sender k rest
      (l.step sha256 g (epochAdvert sha256 g plans sender) (.hear num n time receiver)) := by
  cases h with
  | start n' a b hrem hsum ha hlt hepochs hopened hdecoded =>
      obtain ⟨a, rfl⟩ := Nat.exists_eq_succ_of_ne_zero (Nat.ne_of_gt ha)
      cases hrem
      rw [hopened] at hattributed
      exact hear_start hvalues hcode hsender hsum hlt hepochs hdecoded hreceiver (by simpa using hattributed)
  | current n' a b count e hrem hsum hcount hmore hlt hepochs he hopened hdecoded =>
      rw [hopened] at hattributed
      cases a with
      | succ a =>
          cases hrem
          exact hear_current hvalues hcode hsender hsum hlt hepochs he hdecoded (by simpa using hattributed)
      | zero =>
          obtain ⟨b, rfl⟩ := Nat.exists_eq_succ_of_ne_zero (n := b) (by omega)
          rw [remaining, List.range_eq_range'] at hrem
          cases hrem
          exact hear_next_start hvalues hcode hsender hsum hcount hlt hepochs he hdecoded hreceiver
            (by simpa using hattributed)
  | next n' b count e e' hrem hsum hmore hcount hepochs he he' hopened hdecoded =>
      obtain ⟨b, rfl⟩ := Nat.exists_eq_succ_of_ne_zero (Nat.ne_of_gt hmore)
      cases hrem
      rw [hopened] at hattributed
      exact hear_next hvalues hcode hsender hsum hcount hepochs he he' hdecoded (by simpa using hattributed)
  | done hrem => cases hrem

omit hvalues hcode hsender in
/-- Other events leave the decoders alone. -/
theorem Progress.of_decoders (h : Progress sha256 g parts plans sender k rem l) {device : EbNDeviceBT4 P ec}
    (hepochs : List.Forall₂ (fun e e' : Epoch P ec => e'.dhDecoder = e.dhDecoder) l.device.epochs device.epochs) :
    Progress sha256 g parts plans sender k rem { l with device } := by
  have hkept : ∀ {k count bound} {e e' : Epoch P ec}, e'.dhDecoder = e.dhDecoder →
      GathersOf sha256 g parts plans sender k count bound e → GathersOf sha256 g parts plans sender k count bound e' := by
    intro k count bound e e' heq he
    obtain ⟨hdecoder, hundecoded⟩ := he
    rw [← heq] at hdecoder hundecoded
    exact ⟨hdecoder, hundecoded⟩
  cases h with
  | start n a b hrem hsum ha hlt hnone hopened hdecoded =>
      rw [hnone] at hepochs
      exact .start n a b hrem hsum ha hlt (List.forall₂_nil_left_iff.mp hepochs) hopened hdecoded
  | current n a b count e hrem hsum hcount hmore hlt hone he hopened hdecoded =>
      rw [hone] at hepochs
      obtain ⟨e', rest, he', hrest, hdevice⟩ := List.forall₂_cons_left_iff.mp hepochs
      rw [List.forall₂_nil_left_iff.mp hrest] at hdevice
      exact .current n a b count e' hrem hsum hcount hmore hlt hdevice (hkept he' he) hopened hdecoded
  | next n b count e₁ e₂ hrem hsum hmore hcount htwo he₁ he₂ hopened hdecoded =>
      rw [htwo] at hepochs
      obtain ⟨e₁', rest, he₁', hrest, hdevice⟩ := List.forall₂_cons_left_iff.mp hepochs
      obtain ⟨e₂', rest', he₂', hrest', rfl⟩ := List.forall₂_cons_left_iff.mp hrest
      rw [List.forall₂_nil_left_iff.mp hrest'] at hdevice
      exact .next n b count e₁' e₂' hrem hsum hmore hcount hdevice (hkept he₁' he₁) (hkept he₂' he₂) hopened hdecoded
  | done hrem hdecoded => exact .done hrem hdecoded

/-- The rest of a window. -/
theorem Progress.run (events : List (Reception P ec)) (hheard : events.filterMap Reception.heard? = rem)
    (hattributed : l.AllAttributed sha256 g (epochAdvert sha256 g plans sender) events)
    (h : Progress sha256 g parts plans sender k rem l) :
    Progress sha256 g parts plans sender k []
      (events.foldl (Listener.step sha256 g (epochAdvert sha256 g plans sender)) l) := by
  induction events generalizing l rem with
  | nil =>
      cases hheard
      exact h
  | cons event events ih =>
      obtain ⟨hevent, hrest⟩ := hattributed
      subst hheard
      rw [List.foldl_cons]
      cases event with
      | hear epoch num time receiver =>
          obtain ⟨hreceiver, hattributed⟩ := hevent epoch num time receiver rfl
          exact ih rfl hrest (h.hear hvalues hcode hsender hreceiver hattributed)
      | changeEpoch receiver =>
          exact ih rfl hrest (h.of_decoders (changeEpochDevice_decoders receiver l.device))
      | other base => exact ih rfl hrest (h.of_decoders (List.forall₂_same.mpr fun _ _ => rfl))

end

/-! ## Adverts heard at one time -/

section
variable {sender : EbNRadioBT4 P ec} {plans : Nat → EpochPlan P ec}

/-- Once an advert of the epoch has been heard, higher ones at the same time belong to the same receiver epoch. -/
theorem allAttributed_burst (hvalues : ConfirmValues P) (hcode : Code g P ec parts) (hsender : Reachable sha256 g sender)
    (hreceiver : Reachable sha256 g receiver) (k : Nat) (time : Time) (count : Nat) :
    ∀ (n : Nat) (l : Listener P ec) (init : List (Epoch P ec)) (e : Epoch P ec), n + count ≤ ADV_N →
      l.opened = some k → l.device.epochs = init ++ [e] → e.lastAdvertNum < n → e.lastAdvertTime = time →
        l.AllAttributed sha256 g (epochAdvert sha256 g plans sender)
          ((List.range' n count).map fun n => .hear k n time receiver) := by
  have hADV := symbols_per_epoch hvalues ec
  induction count with
  | zero => exact fun _ _ _ _ _ _ _ _ _ => trivial
  | succ count ih =>
      intro n l init e hlt hopened hepochs hnum htime
      obtain ⟨hnumber, -, -⟩ := advert_symbols plans hvalues hcode hsender k n (by omega)
      obtain ⟨hclass, init', e', hepochs', hnum', htime'⟩ :=
        receive_burst sha256 g receiver hnumber (by omega) hepochs hnum htime
      refine ⟨?_, ih (n + 1) _ init' e' (by omega) rfl hepochs' (by omega) htime'⟩
      rintro epoch advertNum time' receiver' heq
      cases heq
      rw [hopened, hclass]
      exact ⟨hreceiver, by simp [Attributed]⟩

/-- All adverts that are heard at one time belong to the receiver epoch that the first of them opens. -/
theorem allAttributed_fresh (hvalues : ConfirmValues P) (hcode : Code g P ec parts) (hsender : Reachable sha256 g sender)
    (hreceiver : Reachable sha256 g receiver) (k : Nat) (time : Time) {n count : Nat} (hlt : n + count ≤ ADV_N)
    {device : EbNDeviceBT4 P ec} (hdevice : device.epochs = []) :
    Listener.AllAttributed sha256 g (epochAdvert sha256 g plans sender) ⟨device, none, []⟩
      ((List.range' n count).map fun n => .hear k n time receiver) := by
  have hADV := symbols_per_epoch hvalues ec
  cases count with
  | zero => trivial
  | succ count =>
      obtain ⟨hnumber, -, -⟩ := advert_symbols plans hvalues hcode hsender k n (by omega)
      obtain ⟨hclass, init, e, hepochs, hnum, htime⟩ := receive_fresh sha256 g receiver hnumber (by omega) hdevice
      refine ⟨?_, allAttributed_burst hvalues hcode hsender hreceiver k time count (n + 1) _ init e (by omega) rfl hepochs
        (by omega) htime⟩
      rintro epoch advertNum time' receiver' heq
      cases heq
      dsimp only
      rw [hclass]
      exact ⟨hreceiver, by simp [Attributed]⟩

end

/-! ## Windows -/

section
variable {plans : Nat → EpochPlan P ec} {k : Nat}

omit [FloatOps P] in
/-- Of all broadcasts, those of the epochs `k` and `k + 1`. -/
theorem filter_broadcasts (epochs : Nat) :
    (broadcasts plans epochs).filter (fun x => decide (x.1 = k ∨ x.1 = k + 1))
      = (if k < epochs then (List.range (plans k).count).map (Prod.mk k) else [])
        ++ (if k + 1 < epochs then (List.range (plans (k + 1)).count).map (Prod.mk (k + 1)) else []) := by
  have hepoch : ∀ e, ((List.range (plans e).count).map (Prod.mk e)).filter (fun x => decide (x.1 = k ∨ x.1 = k + 1))
      = if e = k ∨ e = k + 1 then (List.range (plans e).count).map (Prod.mk e) else [] := by
    intro e
    split_ifs with he
    · refine List.filter_eq_self.mpr fun x hx => ?_
      obtain ⟨n, -, rfl⟩ := List.mem_map.mp hx
      exact decide_eq_true he
    · refine List.filter_eq_nil_iff.mpr fun x hx => ?_
      obtain ⟨n, -, rfl⟩ := List.mem_map.mp hx
      exact fun h => he (of_decide_eq_true h)
  induction epochs with
  | zero => rfl
  | succ epochs ih =>
      have hsucc : broadcasts plans (epochs + 1)
          = broadcasts plans epochs ++ (List.range (plans epochs).count).map (Prod.mk epochs) := by
        simp [broadcasts, List.range_succ]
      rw [hsucc, List.filter_append, ih, hepoch]
      rcases Nat.lt_trichotomy epochs k with hlt | rfl | hgt
      · rw [if_neg (by omega), if_neg (by omega), if_neg (by omega), if_neg (by omega), if_neg (by omega)]
        rfl
      · simp
      · rcases Nat.eq_or_lt_of_le hgt with rfl | hgt
        · simp
        · simp [show k < epochs by omega, show k + 1 < epochs by omega, show k < epochs + 1 by omega,
            show k + 1 < epochs + 1 by omega, show epochs ≠ k by omega, show epochs ≠ k + 1 by omega]

omit [FloatOps P] in
/-- A window is the end of an epoch and the start of the next one, or lies within an epoch. -/
theorem window_split {epochs : Nat} {w : List (Nat × Nat)} (hw : w <:+: broadcasts plans epochs)
    (hhas : ∃ n, (k, n) ∈ w) (honly : ∀ x ∈ w, x.1 = k ∨ x.1 = k + 1) :
    ∃ n a b, 0 < a ∧ n + a ≤ (plans k).count ∧ a + b = w.length ∧ w = remaining k n a b := by
  have hboth : w <:+: remaining k 0 (plans k).count (plans (k + 1)).count := by
    have hfilter := hw.filter fun x => decide (x.1 = k ∨ x.1 = k + 1)
    rw [List.filter_eq_self.mpr fun x hx => decide_eq_true (honly x hx), filter_broadcasts] at hfilter
    rw [remaining, ← List.range_eq_range']
    split_ifs at hfilter with hk hk'
    · exact hfilter
    · rw [List.append_nil] at hfilter
      exact List.infix_append_of_infix_left hfilter
    · omega
    · rw [List.append_nil, List.infix_nil] at hfilter
      rw [hfilter]
      exact List.nil_infix
  obtain ⟨before, after, hsplit⟩ := hboth
  have hdrop : w = ((remaining k 0 (plans k).count (plans (k + 1)).count).drop before.length).take w.length := by
    rw [← hsplit, List.append_assoc, List.drop_left, List.take_left]
  rw [remaining, List.drop_append, List.take_append] at hdrop
  simp only [← List.map_drop, ← List.map_take, List.drop_range', Nat.zero_add, Nat.mul_one, List.length_map,
    List.length_range'] at hdrop
  have hstart : before.length < (plans k).count := by
    by_contra hlate
    obtain ⟨n, hn⟩ := hhas
    rw [hdrop, show (plans k).count - before.length = 0 by omega, List.range'_zero, List.take_nil, List.map_nil,
      List.nil_append] at hn
    obtain ⟨_, -, heq⟩ := List.mem_map.mp hn
    exact absurd (congrArg Prod.fst heq) (Nat.succ_ne_self k)
  rw [show before.length - (plans k).count = 0 by omega, List.drop_zero] at hdrop
  rcases Nat.le_total w.length ((plans k).count - before.length) with hle | hge
  · refine ⟨before.length, w.length, 0, ?_, by omega, by omega, ?_⟩
    · obtain ⟨n, hn⟩ := hhas
      exact List.length_pos_of_mem hn
    · rw [show w.length - ((plans k).count - before.length) = 0 by omega, List.take_range'_of_length_ge hle] at hdrop
      exact hdrop
  · rw [List.take_range'_of_length_le hge, List.take_range] at hdrop
    refine ⟨before.length, (plans k).count - before.length, _, by omega, by omega, ?_, hdrop⟩
    have hlength := congrArg List.length hdrop
    simp only [List.length_append, List.length_map, List.length_range', List.length_range] at hlength
    omega

end

end Sddr.Radio.EbNRadioBT4
