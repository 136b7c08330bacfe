import Sddr.Radio.Lemmas.BT2Epoch
import Sddr.Radio.Lemmas.Tracking
import Sddr.Radio.Repeats

/-!
# Which repeats are skipped

The number and the time of an epoch stay those of the advert that opened it, so its repeats are found and those of
the later ones are not.
-/

namespace Sddr.Radio
open Sddr.Lib Sddr.Codec Sddr.Device

/-! ## The accepted adverts -/

section
variable {E : Type} {number : Mem → Nat} {limit : Nat} {last last' : Option (Nat × Time)}
  {accepted : List (Time × Mem)}

/-- The first of the accepted adverts opened the epoch, and the others have higher numbers. -/
inductive OpenedFirst (number : Mem → Nat) (limit : Nat) : Option (Nat × Time) → List (Time × Mem) → Prop
  | empty : OpenedFirst number limit none []
  | opened (time : Time) (data : Mem) (rest : List (Time × Mem)) (hdata : number data < limit)
      (hrest : ∀ a ∈ rest, number data < number a.2 ∧ number a.2 < limit) :
      OpenedFirst number limit (some (number data, time)) ((time, data) :: rest)

/-- What an advert with number `n` does to the number and the time of the current epoch. -/
inductive Turns (n : Nat) (time : Time) : AdvertClass E → Option (Nat × Time) → Option (Nat × Time) → Prop
  | isDuplicate (last : Option (Nat × Time)) : Turns n time .isDuplicate last last
  | current (curEpoch : E) (m : Nat) (t : Time) (hlt : m < n) : Turns n time (.current curEpoch) (some (m, t)) (some (m, t))
  | isNew (last : Option (Nat × Time)) : Turns n time .isNew last (some (n, time))

theorem OpenedFirst.accept (h : OpenedFirst number limit last accepted) {time : Time} {data : Mem}
    (hdata : number data < limit) {advertClass : AdvertClass E}
    (hturns : Turns (number data) time advertClass last last') :
    OpenedFirst number limit last' (advertClass.accept (time, data) accepted) := by
  cases hturns with
  | isDuplicate => exact h
  | isNew => exact .opened time data [] hdata fun a ha => absurd ha List.not_mem_nil
  | current curEpoch m t hlt =>
      cases h with
      | opened _ first rest hfirst hrest =>
          refine .opened t first (rest ++ [(time, data)]) hfirst fun a ha => ?_
          rcases List.mem_append.mp ha with ha | ha
          · exact hrest a ha
          · rw [List.mem_singleton.mp ha]
            exact ⟨hlt, hdata⟩

/-- An accepted advert is the one that opened the epoch, or has a higher number. -/
theorem OpenedFirst.mem (h : OpenedFirst number limit last accepted) {a : Time × Mem} (ha : a ∈ accepted) :
    ∃ m t, last = some (m, t) ∧ (accepted.head?.map fun first => number first.2) = some m ∧ number a.2 < limit ∧
      (number a.2 = m ∧ a.1 = t ∨ m < number a.2) := by
  cases h with
  | empty => cases ha
  | opened time data rest hdata hrest =>
      refine ⟨number data, time, rfl, rfl, ?_⟩
      rcases List.mem_cons.mp ha with rfl | ha
      · exact ⟨hdata, Or.inl ⟨rfl, rfl⟩⟩
      · exact ⟨(hrest a ha).2, Or.inr (hrest a ha).1⟩

end

/-! ## BT2 -/

namespace EbNRadioBT2
open BT2

variable {P : Type} [FloatOps P] {ec : Ec} {sha256 : List Byte → Digest}

def lastOf (epochs : List Epoch) : Option (Nat × Time) :=
  epochs.getLast?.map fun e => (e.lastAdvertNum, e.lastAdvertTime)

theorem classify_opener {epochs : List Epoch} {n : Nat} {t time : Time} (hlast : lastOf epochs = some (n, t))
    (hsoon : (time - t).toNat < (ADV_N - 3) * DISC_INTERVAL) : classify epochs n time = .isDuplicate := by
  obtain ⟨e, he, heq⟩ := Option.map_eq_some_iff.mp hlast
  cases heq
  unfold classify
  rw [he]
  dsimp only
  rw [if_pos rfl, if_pos hsoon]

theorem classify_later {epochs : List Epoch} {m n : Nat} {t : Time} (time : Time) (hlast : lastOf epochs = some (m, t))
    (hlt : m < n) : classify epochs n time ≠ .isDuplicate := by
  obtain ⟨e, he, heq⟩ := Option.map_eq_some_iff.mp hlast
  cases heq
  unfold classify
  rw [he]
  dsimp only
  rw [if_neg (Nat.ne_of_lt hlt)]
  split_ifs <;> simp

theorem classify_current {epochs : List Epoch} {n : Nat} {time : Time} {curEpoch : Epoch}
    (hclass : classify epochs n time = .current curEpoch) :
    lastOf epochs = some (curEpoch.lastAdvertNum, curEpoch.lastAdvertTime) ∧ curEpoch.lastAdvertNum < n := by
  unfold classify at hclass
  unfold lastOf
  cases hlast : epochs.getLast? with
  | none =>
      rw [hlast] at hclass
      cases hclass
  | some e =>
      rw [hlast] at hclass
      dsimp only at hclass
      split_ifs at hclass with hsame hsoon hlater
      cases hclass
      exact ⟨rfl, hlater.1⟩

variable (sha256) in
theorem processAdvert_inRange (r : EbNRadioBT2 P ec) (device : EbNDeviceBT2 P) (time : Time) {data : Mem}
    (hdata : advertNumber data < ADV_N) :
    processAdvert sha256 r device time data true =
      let advert := BitMap.ofMem (240 * 8) data
      match classify device.epochs (advertNumber data) time with
      | .isDuplicate => (false, device)
      | .current curEpoch => (true, applyBloom sha256 r device advert (advertNumber data) curEpoch false)
      | .isNew =>
          let opened := r.openEpoch device time advert (advertNumber data) true
          (true, applyBloom sha256 r opened.2 advert (advertNumber data) opened.1 true) :=
  if_pos hdata

/-- What an advert in range does to the last epoch. -/
theorem turns (r : EbNRadioBT2 P ec) (device : EbNDeviceBT2 P) (time : Time) (data : Mem)
    (hdata : advertNumber data < ADV_N) :
    Turns (advertNumber data) time (classify device.epochs (advertNumber data) time) (lastOf device.epochs)
      (lastOf (processEpochs (processAdvert sha256 r device time data true).2).epochs) := by
  unfold processEpochs lastOf
  dsimp only
  rw [getLast?_pastErased]
  rw [processAdvert_inRange sha256 r device time hdata]
  cases hclass : classify device.epochs (advertNumber data) time with
  | isDuplicate => exact .isDuplicate _
  | current curEpoch =>
      obtain ⟨hlast, hlt⟩ := classify_current hclass
      have hturns : Turns (advertNumber data) time (.current curEpoch) (lastOf device.epochs) (lastOf device.epochs) := by
        rw [hlast]
        exact .current curEpoch _ _ hlt
      exact hturns
  | isNew =>
      dsimp only
      rw [(applyBloom_values sha256 r _ _ _ _ _).2]
      have hopened : (r.openEpoch device time (BitMap.ofMem (240 * 8) data) (advertNumber data) true).2.epochs.getLast?
          = some { Epoch.new (advertNumber data) time r.keySize with
              dhRemotePublic := r.readPublicX (BitMap.ofMem (240 * 8) data)
                (Epoch.new (advertNumber data) time r.keySize).dhRemotePublic } := by
        unfold openEpoch
        dsimp only
        rw [if_pos rfl]
        split <;> exact List.getLast?_concat
      exact (congrArg (fun last => Turns (advertNumber data) time .isNew (lastOf device.epochs)
        (last.map fun e => (e.lastAdvertNum, e.lastAdvertTime))) hopened).mpr (.isNew _)

theorem length_pastErased (epochs : List Epoch) : (pastErased epochs).length ≤ 1 := by
  induction epochs with
  | nil => exact Nat.zero_le 1
  | cons e rest ih =>
      cases rest with
      | nil => exact Nat.le_refl 1
      | cons e' rest => exact ih

theorem pastErased_short {epochs : List Epoch} (h : epochs.length ≤ 1) : pastErased epochs = epochs := by
  match epochs with
  | [] => rfl
  | [e] => rfl
  | _ :: _ :: _ => simp at h

/-- What holds after any adverts. -/
structure RepeatInv (h : AcceptLog (EbNDeviceBT2 P)) : Prop where
  accepted : OpenedFirst advertNumber ADV_N (lastOf h.device.epochs) h.accepted
  settled : h.device.epochs.length ≤ 1

theorem RepeatInv.step {h : AcceptLog (EbNDeviceBT2 P)} (hinv : RepeatInv h)
    (advert : EbNRadioBT2 P ec × Time × Mem) : RepeatInv (hearAgain sha256 h advert) := by
  obtain ⟨r, time, data⟩ := advert
  refine ⟨?_, length_pastErased _⟩
  unfold hearAgain
  dsimp only
  split_ifs with hdata
  · exact hinv.accepted.accept hdata (turns r h.device time data hdata)
  · have hsame : (processAdvert sha256 r h.device time data true).2 = h.device := by
      unfold processAdvert
      exact congrArg Prod.snd (if_neg hdata)
    rw [hsame]
    have hlast : lastOf (processEpochs h.device).epochs = lastOf h.device.epochs :=
      congrArg lastOf (pastErased_short hinv.settled)
    rw [hlast]
    exact hinv.accepted

theorem RepeatInv.run {h : AcceptLog (EbNDeviceBT2 P)} (hinv : RepeatInv h)
    (adverts : List (EbNRadioBT2 P ec × Time × Mem)) : RepeatInv (adverts.foldl (hearAgain sha256) h) := by
  induction adverts generalizing h with
  | nil => exact hinv
  | cons advert adverts ih => exact ih (hinv.step advert)

/-- An advert with the number of the first accepted one is skipped, and any other one is accepted again. -/
theorem RepeatInv.skipped_iff {h : AcceptLog (EbNDeviceBT2 P)} (hinv : RepeatInv h) {a : Time × Mem}
    (ha : a ∈ h.accepted) (r : EbNRadioBT2 P ec) {time : Time}
    (hsoon : (time - a.1).toNat < (ADV_N - 3) * DISC_INTERVAL) :
    Skipped sha256 r h.device time a.2
      ↔ (h.accepted.head?.map fun first => advertNumber first.2) = some (advertNumber a.2) := by
  obtain ⟨m, t, hlast, hfirst, hdata, hcases⟩ := hinv.accepted.mem ha
  rw [hfirst]
  rcases hcases with ⟨hnumber, htime⟩ | hlater
  · have hclass : classify h.device.epochs (advertNumber a.2) time = .isDuplicate := by
      rw [hnumber]
      exact classify_opener hlast (htime ▸ hsoon)
    have hskip : processAdvert sha256 r h.device time a.2 true = (false, h.device) := by
      rw [processAdvert_inRange sha256 r h.device time hdata, hclass]
    rw [hnumber]
    refine ⟨fun _ => rfl, fun _ => ?_⟩
    unfold Skipped processEpochs
    rw [hskip]
    dsimp only
    rw [pastErased_short hinv.settled]
    exact ⟨rfl, rfl⟩
  · have hclass := classify_later time hlast hlater
    have haccept : (processAdvert sha256 r h.device time a.2 true).1 = true := by
      rw [processAdvert_inRange sha256 r h.device time hdata]
      cases hdup : classify h.device.epochs (advertNumber a.2) time with
      | isDuplicate => exact absurd hdup hclass
      | current curEpoch => rfl
      | isNew => rfl
    constructor
    · rintro ⟨hfalse, -⟩
      rw [haccept] at hfalse
      cases hfalse
    · intro heq
      exact absurd (Option.some.inj heq) (Nat.ne_of_lt hlater)

end EbNRadioBT2

/-! ## BT4 -/

namespace EbNRadioBT4
open Sddr.Erasure BT4

variable {P : Type} [FloatOps P] {ec : Ec} {sha256 : List Byte → Digest} {g : Galois}

/-! ### Processing twice -/

/-- The filter has no new segment, and stays with the epoch whose last filter has number `lastNum`. -/
structure BloomSettled (lastNum : Nat) (bloom : Nat × SegmentedBloomFilter P) : Prop where
  seen : FloatOps.eq bloom.2.pFalse FloatOps.one = true
  last : bloom.1 = lastNum
  unfilled : bloom.2.isFilled (BF_B - 1) = false

variable (sha256) in
theorem processBlooms_settled (hone : FloatOps.eq (FloatOps.one : P) FloatOps.one = true) (r : EbNRadioBT4 P ec)
    (X : List Byte) (decodeBloomNum lastNum : Nat) (blooms : List (Nat × SegmentedBloomFilter P))
    (device : EbNDevice P) :
    ∀ bloom ∈ (processBlooms sha256 r X decodeBloomNum lastNum blooms device).1, BloomSettled lastNum bloom := by
  induction blooms generalizing device with
  | nil => exact fun bloom hbloom => absurd hbloom List.not_mem_nil
  | cons bloom blooms ih =>
      have hseen : FloatOps.eq (processBloom sha256 r X decodeBloomNum bloom.1 bloom.2 device).1.pFalse FloatOps.one
          = true := by
        unfold processBloom
        cases hnew : FloatOps.eq bloom.2.pFalse FloatOps.one with
        | false => exact hone
        | true => exact hnew
      rw [processBlooms]
      split_ifs with hremoved
      · exact ih _
      · obtain ⟨hlast, hunfilled⟩ := not_or.mp hremoved
        intro bloom' hbloom'
        rcases List.mem_cons.mp hbloom' with rfl | hbloom'
        · exact ⟨hseen, not_not.mp hlast, Bool.eq_false_iff.mpr hunfilled⟩
        · exact ih _ bloom' hbloom'

theorem processBlooms_again (r : EbNRadioBT4 P ec) (X : List Byte) (decodeBloomNum lastNum : Nat)
    {blooms : List (Nat × SegmentedBloomFilter P)} (h : ∀ bloom ∈ blooms, BloomSettled lastNum bloom)
    (device : EbNDevice P) : processBlooms sha256 r X decodeBloomNum lastNum blooms device = (blooms, device) := by
  induction blooms with
  | nil => rfl
  | cons bloom blooms ih =>
      obtain ⟨hseen, hlast, hunfilled⟩ := h bloom List.mem_cons_self
      have hfirst : processBloom sha256 r X decodeBloomNum bloom.1 bloom.2 device = (bloom.2, device) := by
        rw [processBloom, hseen]
        rfl
      rw [processBlooms, hfirst]
      dsimp only
      rw [if_neg (by simp [hlast, hunfilled]), ih fun bloom' hbloom' => h bloom' (List.mem_cons_of_mem _ hbloom')]

/-- Processing the epoch again changes nothing. -/
structure EpochSettled (e : Epoch P ec) : Prop where
  waits : e.dhDecoder.isDecoded = false → e.dhDecoder.canDecode = false
  blooms : e.dhDecoder.isDecoded = true → ∀ last, e.blooms.getLast? = some last →
    ∀ bloom ∈ e.blooms, BloomSettled last.1 bloom

variable (sha256 g) in
theorem processEpoch_settled (hone : FloatOps.eq (FloatOps.one : P) FloatOps.one = true) (r : EbNRadioBT4 P ec)
    (e : Epoch P ec) (device : EbNDevice P) : EpochSettled (processEpoch sha256 g r e device).1 := by
  have hdecode : (decodeEpoch g r e device).1.dhDecoder.isDecoded = false →
      (decodeEpoch g r e device).1.dhDecoder.canDecode = false := by
    unfold decodeEpoch
    split
    · next hguard =>
        obtain ⟨hundecoded, hcan⟩ := Bool.and_eq_true_iff.mp hguard
        rw [Bool.not_eq_true'] at hundecoded
        obtain ⟨X, d', hdecode, hdecoded, -⟩ := decode_spec (g := g) hundecoded hcan
        rw [hdecode]
        exact fun hfalse => absurd (hdecoded.symm.trans hfalse) Bool.noConfusion
    · next hguard =>
        intro hundecoded
        rw [hundecoded] at hguard
        exact Bool.eq_false_iff.mpr hguard
  unfold processEpoch
  dsimp only
  split
  · next last hdecoded hlast =>
      refine ⟨fun hundecoded => absurd (hdecoded.symm.trans hundecoded) Bool.noConfusion,
        fun _ last' hlast' bloom hbloom => ?_⟩
      have hsettled := processBlooms_settled sha256 hone r
        (decodeEpoch g r e device).1.dhDecoder.data (decodeEpoch g r e device).1.decodeBloomNum last.1
        (decodeEpoch g r e device).1.blooms (decodeEpoch g r e device).2
      rw [(hsettled last' (List.mem_of_getLast? hlast')).last]
      exact hsettled bloom hbloom
  · next hnone =>
      refine ⟨hdecode, fun hdecoded last hlast => ?_⟩
      exact absurd hlast (hnone last hdecoded)

theorem EpochSettled.again {e : Epoch P ec} (h : EpochSettled e) (r : EbNRadioBT4 P ec) (device : EbNDevice P) :
    processEpoch sha256 g r e device = (e, device) := by
  have hdecode : decodeEpoch g r e device = (e, device) := by
    unfold decodeEpoch
    cases hdecoded : e.dhDecoder.isDecoded with
    | true => rfl
    | false =>
        rw [h.waits hdecoded]
        rfl
  unfold processEpoch
  rw [hdecode]
  dsimp only
  split
  · next last hdecoded hlast => rw [processBlooms_again r _ _ _ (h.blooms hdecoded last hlast)]
  · rfl

/-- At most two epochs, of which only the last one may be decoded. -/
structure Settled (epochs : List (Epoch P ec)) : Prop where
  all : ∀ e ∈ epochs, EpochSettled e
  undecoded : ∀ e ∈ epochs.dropLast, e.dhDecoder.isDecoded = false
  short : epochs.length ≤ 2

variable (sha256 g) in
theorem processEpochsFrom_settled (hone : FloatOps.eq (FloatOps.one : P) FloatOps.one = true) (r : EbNRadioBT4 P ec)
    (epochs : List (Epoch P ec)) (kept : Nat) (device : EbNDevice P) :
    let after := (processEpochsFrom sha256 g r kept epochs device).1
    (∀ e ∈ after, EpochSettled e) ∧ (∀ e ∈ after.dropLast, e.dhDecoder.isDecoded = false) ∧
      (after.length ≤ 1 ∨ kept + after.length ≤ 2) ∧ after.length ≤ epochs.length := by
  induction epochs generalizing kept device with
  | nil => exact ⟨fun e he => absurd he List.not_mem_nil, fun e he => absurd he List.not_mem_nil, Or.inl (Nat.zero_le 1),
      Nat.le_refl 0⟩
  | cons e epochs ih =>
      rw [processEpochsFrom]
      dsimp only
      split_ifs with hremoved
      · obtain ⟨hall, hundecoded, hshort, hlength⟩ := ih kept (processEpoch sha256 g r e device).2
        exact ⟨hall, hundecoded, hshort, Nat.le_succ_of_le hlength⟩
      · obtain ⟨hall, hundecoded, hshort, hlength⟩ := ih (kept + 1) (processEpoch sha256 g r e device).2
        have hsettled := processEpoch_settled sha256 g hone r e device
        cases hrest : (processEpochsFrom sha256 g r (kept + 1) epochs (processEpoch sha256 g r e device).2).1 with
        | nil =>
            refine ⟨fun e' he' => ?_, fun e' he' => absurd he' List.not_mem_nil, Or.inl (Nat.le_refl 1), ?_⟩
            · rw [List.mem_singleton.mp he']
              exact hsettled
            · exact Nat.succ_le_succ (Nat.zero_le _)
        | cons e₁ rest =>
            rw [hrest] at hall hundecoded hshort hlength
            have hepochs : epochs ≠ [] := by
              rintro rfl
              cases hlength
            obtain ⟨hdecoded, hkept⟩ := not_or.mp (not_and.mp hremoved hepochs)
            have hpos : 0 < epochs.length := List.length_pos_iff.mpr hepochs
            rw [List.length_cons] at hlength
            refine ⟨fun e' he' => ?_, fun e' he' => ?_, Or.inr ?_, Nat.succ_le_succ hlength⟩
            · rcases List.mem_cons.mp he' with rfl | he'
              · exact hsettled
              · exact hall e' he'
            · rw [List.dropLast_cons_cons] at he'
              rcases List.mem_cons.mp he' with rfl | he'
              · exact Bool.eq_false_iff.mpr hdecoded
              · exact hundecoded e' he'
            · rw [List.length_cons, List.length_cons]
              omega

theorem processEpochsFrom_again (r : EbNRadioBT4 P ec) {epochs : List (Epoch P ec)} (h : ∀ e ∈ epochs, EpochSettled e)
    (hundecoded : ∀ e ∈ epochs.dropLast, e.dhDecoder.isDecoded = false) {kept : Nat}
    (hshort : kept + epochs.length ≤ 2) (device : EbNDevice P) :
    processEpochsFrom sha256 g r kept epochs device = (epochs, device) := by
  induction epochs generalizing kept with
  | nil => rfl
  | cons e epochs ih =>
      rw [processEpochsFrom, (h e List.mem_cons_self).again]
      rw [List.length_cons] at hshort
      have hkept : ¬(epochs ≠ [] ∧ (e.dhDecoder.isDecoded = true ∨ kept + epochs.length + 1 > 2)) := by
        rintro ⟨hne, hdecoded | hmany⟩
        · have hfalse := hundecoded e (by rw [List.dropLast_cons_of_ne_nil hne]; exact List.mem_cons_self)
          exact absurd (hfalse.symm.trans hdecoded) Bool.noConfusion
        · omega
      dsimp only
      rw [if_neg hkept, ih (fun e' he' => h e' (List.mem_cons_of_mem _ he')) (fun e' he' => ?_) (by omega)]
      refine hundecoded e' ?_
      have hne : epochs ≠ [] := List.ne_nil_of_mem (List.dropLast_subset _ he')
      rw [List.dropLast_cons_of_ne_nil hne]
      exact List.mem_cons_of_mem _ he'

variable (sha256 g) in
theorem processEpochs_settled (hone : FloatOps.eq (FloatOps.one : P) FloatOps.one = true) (r : EbNRadioBT4 P ec)
    (device : EbNDeviceBT4 P ec) : Settled (processEpochs sha256 g r device).epochs := by
  obtain ⟨hall, hundecoded, hshort, -⟩ := processEpochsFrom_settled sha256 g hone r device.epochs 0 device.toEbNDevice
  refine ⟨hall, hundecoded, ?_⟩
  show (processEpochsFrom sha256 g r 0 device.epochs device.toEbNDevice).1.length ≤ 2
  omega

theorem Settled.again {device : EbNDeviceBT4 P ec} (h : Settled device.epochs) (r : EbNRadioBT4 P ec) :
    processEpochs sha256 g r device = device := by
  rw [processEpochs, processEpochsFrom_again r h.all h.undecoded (by rw [Nat.zero_add]; exact h.short)]

/-! ### Repeats -/

def lastOf (epochs : List (Epoch P ec)) : Option (Nat × Time) :=
  epochs.getLast?.map fun e => (e.lastAdvertNum, e.lastAdvertTime)

omit [FloatOps P] in
theorem classify_opener {epochs : List (Epoch P ec)} {n : Nat} {t time : Time} (hlast : lastOf epochs = some (n, t))
    (hsoon : (time - t).toNat < (ADV_N / 2) * SCAN_INTERVAL) : classify epochs n time = .isDuplicate := by
  obtain ⟨e, he, heq⟩ := Option.map_eq_some_iff.mp hlast
  cases heq
  unfold classify
  rw [he]
  dsimp only
  rw [if_pos (Or.inl rfl), if_pos hsoon]

omit [FloatOps P] in
theorem classify_later {epochs : List (Epoch P ec)} {m n : Nat} {t : Time} (time : Time) (hlast : lastOf epochs = some (m, t))
    (hlt : m < n) : classify epochs n time ≠ .isDuplicate := by
  obtain ⟨e, he, heq⟩ := Option.map_eq_some_iff.mp hlast
  cases heq
  unfold classify
  rw [he]
  dsimp only
  rw [if_neg (by omega)]
  split_ifs <;> simp

omit [FloatOps P] in
theorem classify_current_lt {epochs : List (Epoch P ec)} {n : Nat} {time : Time} {curEpoch : Epoch P ec}
    (hclass : classify epochs n time = .current curEpoch) : curEpoch.lastAdvertNum < n := by
  unfold classify at hclass
  rw [classify_current hclass] at hclass
  dsimp only at hclass
  split_ifs at hclass with hsame hsoon hlater
  exact hlater.1

theorem lastOf_processEpochs (r : EbNRadioBT4 P ec) (device : EbNDeviceBT4 P ec) :
    lastOf (processEpochs sha256 g r device).epochs = lastOf device.epochs := by
  rcases List.eq_nil_or_concat device.epochs with hnil | ⟨init, e, hlast⟩
  · rw [processEpochs, hnil]
    rfl
  · rw [List.concat_eq_append] at hlast
    obtain ⟨init', e', hrun, hsame⟩ := processEpochsFrom_last sha256 g r e init 0 device.toEbNDevice
    rw [processEpochs, hlast]
    dsimp only
    rw [hrun, lastOf, lastOf, List.getLast?_concat, List.getLast?_concat]
    exact congrArg some (Prod.ext hsame.lastAdvertNum hsame.lastAdvertTime)

/-- What an advert in range does to the last epoch. -/
theorem turns (r : EbNRadioBT4 P ec) (device : EbNDeviceBT4 P ec) (time : Time) (data : Mem)
    (hdata : advertNumber data < RS_K P ec + RS_M P ec) :
    Turns (advertNumber data) time (classify device.epochs (advertNumber data) time) (lastOf device.epochs)
      (lastOf (receive sha256 g r device time data).epochs) := by
  have hadvert : (r.processAdvert device time data).2 = { device with
      epochs := r.receiveEpochs device time (BitMap.ofMem (31 * 8) data) (advertNumber data)
        (classify device.epochs (advertNumber data) time) } := processAdvert_epochs r device time rfl hdata
  rw [receive, lastOf_processEpochs, hadvert]
  cases hclass : classify device.epochs (advertNumber data) time with
  | isDuplicate => exact .isDuplicate _
  | current curEpoch =>
      have hlt := classify_current_lt hclass
      have hlast : lastOf device.epochs = some (curEpoch.lastAdvertNum, curEpoch.lastAdvertTime) := by
        rw [lastOf, classify_current hclass]
        rfl
      dsimp only
      rw [hlast, receiveEpochs, lastOf, List.getLast?_concat]
      exact .current curEpoch _ _ hlt
  | isNew =>
      dsimp only
      rw [receiveEpochs, lastOf, lastOf, List.getLast?_concat]
      exact .isNew _

/-- What holds after any adverts. -/
structure RepeatInv (h : AcceptLog (EbNDeviceBT4 P ec)) : Prop where
  accepted : OpenedFirst advertNumber (RS_K P ec + RS_M P ec) (lastOf h.device.epochs) h.accepted
  settled : Settled h.device.epochs

theorem RepeatInv.step (hone : FloatOps.eq (FloatOps.one : P) FloatOps.one = true)
    {h : AcceptLog (EbNDeviceBT4 P ec)} (hinv : RepeatInv h) (advert : EbNRadioBT4 P ec × Time × Mem) :
    RepeatInv (hearAgain sha256 g h advert) := by
  obtain ⟨r, time, data⟩ := advert
  refine ⟨?_, processEpochs_settled sha256 g hone r _⟩
  unfold hearAgain
  dsimp only
  split_ifs with hdata
  · exact hinv.accepted.accept hdata (turns r h.device time data hdata)
  · have hsame : (r.processAdvert h.device time data).2 = h.device := by
      unfold processAdvert
      exact congrArg Prod.snd (if_neg hdata)
    rw [receive, hsame, lastOf_processEpochs]
    exact hinv.accepted

theorem RepeatInv.run (hone : FloatOps.eq (FloatOps.one : P) FloatOps.one = true)
    {h : AcceptLog (EbNDeviceBT4 P ec)} (hinv : RepeatInv h) (adverts : List (EbNRadioBT4 P ec × Time × Mem)) :
    RepeatInv (adverts.foldl (hearAgain sha256 g) h) := by
  induction adverts generalizing h with
  | nil => exact hinv
  | cons advert adverts ih => exact ih (hinv.step hone advert)

/-- An advert with the number of the first accepted one is skipped, and any other one is accepted again. -/
theorem RepeatInv.skipped_iff {h : AcceptLog (EbNDeviceBT4 P ec)} (hinv : RepeatInv h) {a : Time × Mem}
    (ha : a ∈ h.accepted) (r : EbNRadioBT4 P ec) {time : Time}
    (hsoon : (time - a.1).toNat < (ADV_N / 2) * SCAN_INTERVAL) :
    Skipped sha256 g r h.device time a.2
      ↔ (h.accepted.head?.map fun first => advertNumber first.2) = some (advertNumber a.2) := by
  obtain ⟨m, t, hlast, hfirst, hdata, hcases⟩ := hinv.accepted.mem ha
  rw [hfirst]
  rcases hcases with ⟨hnumber, htime⟩ | hlater
  · have hclass : classify h.device.epochs (advertNumber a.2) time = .isDuplicate := by
      rw [hnumber]
      exact classify_opener hlast (htime ▸ hsoon)
    have hskip : r.processAdvert h.device time a.2 = (false, h.device) := by
      refine (if_pos hdata).trans ?_
      rw [advertNumber] at hclass
      rw [hclass]
    rw [hnumber]
    refine ⟨fun _ => rfl, fun _ => ?_⟩
    rw [Skipped, receive, hskip]
    exact ⟨rfl, hinv.settled.again r⟩
  · have hclass := classify_later time hlast hlater
    have haccept : (r.processAdvert h.device time a.2).1 = true := by
      refine (congrArg Prod.fst (if_pos hdata)).trans ?_
      rw [advertNumber] at hclass
      split
      next hdup => exact absurd hdup hclass
      next => rfl
    constructor
    · rintro ⟨hfalse, -⟩
      rw [haccept] at hfalse
      cases hfalse
    · intro heq
      exact absurd (Option.some.inj heq) (Nat.ne_of_lt hlater)

end EbNRadioBT4

end Sddr.Radio
