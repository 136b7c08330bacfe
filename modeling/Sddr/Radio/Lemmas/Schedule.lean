import Mathlib.Order.Basic
import Sddr.Radio.Lemmas.BT2Epoch
import Sddr.Radio.Lemmas.BT4Epochs
import Sddr.Radio.Schedule

/-!
# Receiver epochs and sender epochs

An advert goes to the receiver epoch of its sender epoch as long as its number and time fit those of the advert that
opened it.
-/

namespace Sddr.Radio
open Sddr.Lib Sddr.Codec Sddr.Device

/-! ## Runs of sightings -/

section
variable {D R : Type} {opens : D → Sighting R → Bool} {receive : D → Sighting R → D}
  {Opened : Sighting R → D → Prop} {Ok : Sighting R → Prop} {Fits : Sighting R → Sighting R → Prop}

/-- One sighting `s` at a device whose current receiver epoch was opened by `o`. -/
def StepSpec (opens : D → Sighting R → Bool) (receive : D → Sighting R → D) (Opened : Sighting R → D → Prop)
    (Ok : Sighting R → Prop) (Fits : Sighting R → Sighting R → Prop) : Prop :=
  ∀ o device s, Opened o device → Ok o → Ok s → o.Before s →
    ((opens device s = true ↔ o.epoch < s.epoch) ↔ Fits o s) ∧
      Opened (if opens device s then s else o) (receive device s)

theorem opensPerEpoch_from (hstep : StepSpec opens receive Opened Ok Fits) {sightings : List (Sighting R)}
    {o : Sighting R} {device : D} (hopened : Opened o device) (hok : ∀ s ∈ o :: sightings, Ok s)
    (horder : (o :: sightings).Pairwise Sighting.Before) :
    OpensPerEpoch opens receive (some o.epoch) device sightings ↔ Sighting.AllFit Fits (some o) sightings := by
  induction sightings generalizing o device with
  | nil => exact Iff.rfl
  | cons s rest ih =>
      obtain ⟨hbefore, hrest⟩ := List.pairwise_cons.mp horder
      obtain ⟨hfits, hnext⟩ := hstep o device s hopened (hok o List.mem_cons_self)
        (hok s (List.mem_cons_of_mem _ List.mem_cons_self)) (hbefore s List.mem_cons_self)
      have hlater : (∀ k ∈ some o.epoch, k < s.epoch) ↔ o.epoch < s.epoch := by simp
      rw [OpensPerEpoch, Sighting.AllFit, hlater, hfits]
      refine and_congr_right fun hfit => ?_
      have hopens := hfits.mpr hfit
      by_cases hlt : o.epoch < s.epoch
      · rw [if_pos (hopens.mpr hlt)] at hnext
        rw [if_pos (hopens.mpr hlt), if_pos hlt]
        exact ih hnext (fun s' hs' => hok s' (List.mem_cons_of_mem _ hs')) hrest
      · rw [if_neg fun h => hlt (hopens.mp h)] at hnext
        rw [if_neg fun h => hlt (hopens.mp h), if_neg hlt]
        refine ih hnext (fun s' hs' => ?_) (List.pairwise_cons.mpr ⟨fun s' hs' => ?_, (List.pairwise_cons.mp hrest).2⟩)
        · rcases List.mem_cons.mp hs' with rfl | hs'
          · exact hok _ List.mem_cons_self
          · exact hok s' (List.mem_cons_of_mem _ (List.mem_cons_of_mem _ hs'))
        · exact hbefore s' (List.mem_cons_of_mem _ hs')

/-- The first advert opens an epoch; from then on every advert has to fit. -/
theorem opensPerEpoch_iff (hstep : StepSpec opens receive Opened Ok Fits) {sightings : List (Sighting R)} {device : D}
    (hfirst : ∀ s, Ok s → opens device s = true ∧ Opened s (receive device s)) (hok : ∀ s ∈ sightings, Ok s)
    (horder : sightings.Pairwise Sighting.Before) :
    OpensPerEpoch opens receive none device sightings ↔ Sighting.AllFit Fits none sightings := by
  cases sightings with
  | nil => exact Iff.rfl
  | cons s rest =>
      obtain ⟨hopens, hopened⟩ := hfirst s (hok s List.mem_cons_self)
      rw [OpensPerEpoch, Sighting.AllFit, if_pos hopens]
      constructor
      · exact fun h => (opensPerEpoch_from hstep hopened hok horder).mp h.2
      · exact fun h => ⟨by simp [hopens], (opensPerEpoch_from hstep hopened hok horder).mpr h⟩

theorem allFit_of_forall (h : ∀ o s, Fits o s) (o : Option (Sighting R)) (sightings : List (Sighting R)) :
    Sighting.AllFit Fits o sightings := by
  induction sightings generalizing o with
  | nil => cases o <;> trivial
  | cons s rest ih =>
      cases o with
      | none => exact ih _
      | some o => exact ⟨h o s, ih _⟩

/-- One receiver epoch for each sender epoch that is heard, in the same order. -/
theorem OpensPerEpoch.openings {opened : Option Nat} {device : D} {sightings : List (Sighting R)}
    (h : OpensPerEpoch opens receive opened device sightings) (horder : sightings.Pairwise Sighting.Before)
    (hopened : ∀ k ∈ opened, ∀ s ∈ sightings, k ≤ s.epoch) :
    (openings opens receive device sightings).Pairwise (· < ·) ∧
      ∀ k, k ∈ openings opens receive device sightings ↔ k ∉ opened ∧ ∃ s ∈ sightings, s.epoch = k := by
  induction sightings generalizing opened device with
  | nil => simp [Radio.openings]
  | cons s rest ih =>
      obtain ⟨hopens, hrest⟩ := h
      obtain ⟨hbefore, horder⟩ := List.pairwise_cons.mp horder
      have hle : ∀ s' ∈ rest, s.epoch ≤ s'.epoch := by
        intro s' hs'
        rcases (hbefore s' hs').1 with hlt | ⟨heq, _⟩
        · exact hlt.le
        · exact heq.le
      rw [Radio.openings]
      cases hopen : opens device s with
      | true =>
          have hlater := hopens.mp hopen
          rw [hopen, if_pos rfl] at hrest
          obtain ⟨hsorted, hmem⟩ := ih hrest horder fun k hk => by cases hk; exact hle
          refine ⟨List.pairwise_cons.mpr ⟨fun k hk => ?_, hsorted⟩, fun k => ?_⟩
          · obtain ⟨hne, s', hs', rfl⟩ := (hmem k).mp hk
            exact lt_of_le_of_ne (hle s' hs') fun heq => hne (by rw [heq]; rfl)
          · rw [if_pos rfl, List.singleton_append, List.mem_cons, hmem]
            constructor
            · rintro (rfl | ⟨hne, s', hs', rfl⟩)
              · exact ⟨fun hmem' => (hlater _ hmem').false, s, List.mem_cons_self, rfl⟩
              · refine ⟨fun hmem' => ?_, s', List.mem_cons_of_mem _ hs', rfl⟩
                exact absurd (hlater _ hmem') (hle s' hs').not_gt
            · rintro ⟨hnot, s', hs', rfl⟩
              rcases List.mem_cons.mp hs' with rfl | hs'
              · exact Or.inl rfl
              · by_cases heq : s'.epoch = s.epoch
                · exact Or.inl heq
                · exact Or.inr ⟨fun hmem' => heq (Option.some.inj hmem').symm, s', hs', rfl⟩
      | false =>
          have hnot : ¬ ∀ k ∈ opened, k < s.epoch := fun hall => by simp [hopens.mpr hall] at hopen
          rw [hopen, if_neg Bool.false_ne_true] at hrest
          obtain ⟨hsorted, hmem⟩ := ih hrest horder fun k hk s' hs' => hopened k hk s' (List.mem_cons_of_mem _ hs')
          refine ⟨hsorted, fun k => (hmem k).trans ⟨?_, ?_⟩⟩
          · rintro ⟨hne, s', hs', rfl⟩
            exact ⟨hne, s', List.mem_cons_of_mem _ hs', rfl⟩
          · rintro ⟨hne, s', hs', rfl⟩
            refine ⟨hne, s', ?_, rfl⟩
            rcases List.mem_cons.mp hs' with rfl | hs'
            · -- the epoch of `s` is the one that is open
              push Not at hnot
              obtain ⟨k, hk, hle'⟩ := hnot
              exact absurd (hle'.antisymm (hopened k hk _ List.mem_cons_self) ▸ hk) hne
            · exact hs'

end

/-- A time that is not before another is as much later as the difference of the clocks says. -/
theorem toNat_sub_time {t t' : Time} (h : t ≤ t') : (t' - t).toNat = t'.toNat - t.toNat := BitVec.toNat_sub_of_le h

/-! ## BT2 -/

namespace EbNRadioBT2
open BT2

variable {P : Type} [FloatOps P] {ec : Ec} {sha256 : List Byte → Digest} {start : Int}

/-- The advert `o` opened the only receiver epoch. -/
def OpenedBy (o : Sighting (EbNRadioBT2 P ec)) (device : EbNDeviceBT2 P) : Prop :=
  ∃ e, device.epochs = [e] ∧ e.lastAdvertNum = o.advertNum ∧ e.lastAdvertTime = o.time

omit [FloatOps P] in
/-- The numbers and times of adverts on the air tell the sender epochs apart. -/
theorem classify_onAir {o s : Sighting (EbNRadioBT2 P ec)} {e : Epoch} (hnum : e.lastAdvertNum = o.advertNum)
    (htime : e.lastAdvertTime = o.time) (ho : OnAir start o) (hs : OnAir start s) (horder : o.Before s) :
    classify [e] s.advertNum s.time = .isNew ∧ o.epoch < s.epoch ∨
      (classify [e] s.advertNum s.time = .isDuplicate ∨ classify [e] s.advertNum s.time = .current e) ∧
        s.epoch = o.epoch := by
  obtain ⟨hepoch, hle⟩ := horder
  obtain ⟨holt, _, holow, hohigh⟩ := ho
  obtain ⟨hslt, _, hslow, hshigh⟩ := hs
  have hle' : o.time.toNat ≤ s.time.toNat := hle
  unfold classify
  rw [List.getLast?_singleton]
  dsimp only
  rw [hnum, htime, toNat_sub_time hle]
  simp only [Sighting.epochStart, EPOCH_INTERVAL, DISC_INTERVAL, ADV_N] at holow hohigh hslow hshigh holt hslt
  rcases hepoch with hlater | ⟨hsame, hnums⟩
  · left
    have hlater' : (o.epoch : Int) + 1 ≤ s.epoch := by exact_mod_cast hlater
    by_cases heq : o.advertNum = s.advertNum
    · have hlate : ¬ s.time.toNat - o.time.toNat < (ADV_N - 3) * DISC_INTERVAL := by
        simp only [EPOCH_INTERVAL, DISC_INTERVAL, ADV_N]
        omega
      rw [if_pos heq, if_neg hlate]
      exact ⟨rfl, hlater⟩
    · have hlate : ¬ (o.advertNum < s.advertNum ∧
          s.time.toNat - o.time.toNat < ((s.advertNum - o.advertNum) + 3) * DISC_INTERVAL) := by
        simp only [DISC_INTERVAL]
        omega
      rw [if_neg heq, if_neg hlate]
      exact ⟨rfl, hlater⟩
  · right
    rw [hsame] at holow hohigh
    by_cases heq : o.advertNum = s.advertNum
    · have hsoon : s.time.toNat - o.time.toNat < (ADV_N - 3) * DISC_INTERVAL := by
        simp only [EPOCH_INTERVAL, DISC_INTERVAL, ADV_N]
        omega
      rw [if_pos heq, if_pos hsoon]
      exact ⟨Or.inl rfl, hsame.symm⟩
    · have hsoon : o.advertNum < s.advertNum ∧
          s.time.toNat - o.time.toNat < ((s.advertNum - o.advertNum) + 3) * DISC_INTERVAL := by
        simp only [DISC_INTERVAL]
        omega
      rw [if_neg heq, if_pos hsoon]
      exact ⟨Or.inr rfl, hsame.symm⟩

variable (sha256) in
theorem processAdvert_epochs (device : EbNDeviceBT2 P) {s : Sighting (EbNRadioBT2 P ec)} (hs : OnAir start s) :
    (processAdvert sha256 s.receiver device s.time s.data true).2.epochs = device.epochs ∧
        classify device.epochs s.advertNum s.time ≠ .isNew ∨
      ∃ e, (processAdvert sha256 s.receiver device s.time s.data true).2.epochs = device.epochs ++ [e] ∧
        e.lastAdvertNum = s.advertNum ∧ e.lastAdvertTime = s.time ∧
        classify device.epochs s.advertNum s.time = .isNew := by
  obtain ⟨hlt, hnumber, _⟩ := hs
  unfold processAdvert
  dsimp only
  rw [hnumber, if_pos hlt]
  cases hclass : classify device.epochs s.advertNum s.time with
  | isDuplicate => exact Or.inl ⟨rfl, by simp⟩
  | current curEpoch => exact Or.inl ⟨(applyBloom_values sha256 s.receiver _ _ _ _ _).2, by simp⟩
  | isNew =>
      dsimp only
      rw [(applyBloom_values sha256 s.receiver _ _ _ _ _).2]
      refine Or.inr ⟨(s.receiver.openEpoch device s.time (BitMap.ofMem (240 * 8) s.data) s.advertNum true).1, ?_, ?_⟩
      · unfold openEpoch
        dsimp only
        rw [if_pos rfl]
        split <;> rfl
      · unfold openEpoch
        dsimp only
        rw [if_pos rfl]
        split <;> exact ⟨rfl, rfl, rfl⟩

variable (sha256 start) in
theorem hearAdvert_spec : StepSpec (opensEpoch sha256) (hearAdvert sha256) OpenedBy (OnAir start)
    fun (_ _ : Sighting (EbNRadioBT2 P ec)) => True := by
  rintro o device s ⟨e, hepochs, hnum, htime⟩ ho hs horder
  have hclass := classify_onAir hnum htime ho hs horder
  unfold opensEpoch hearAdvert processEpochs OpenedBy
  rcases processAdvert_epochs sha256 device hs with ⟨hkept, hnot⟩ | ⟨e', hopened, hnum', htime', hnew⟩
  · rw [hkept, hepochs] at *
    have hsame : ¬ o.epoch < s.epoch := fun hlt => by
      rcases hclass with ⟨hnew, _⟩ | ⟨_, heq⟩
      · exact hnot hnew
      · omega
    simp only [lt_irrefl, decide_false, Bool.false_eq_true, if_false, false_iff, iff_true]
    exact ⟨hsame, e, rfl, hnum, htime⟩
  · rw [hopened, hepochs] at *
    have hlater : o.epoch < s.epoch := by
      rcases hclass with ⟨_, hlt⟩ | ⟨hdup | hcur, _⟩
      · exact hlt
      · rw [hnew] at hdup
        cases hdup
      · rw [hnew] at hcur
        cases hcur
    simp only [List.length_append, List.length_singleton, Nat.lt_succ_self, decide_true, if_true, true_iff, iff_true]
    exact ⟨hlater, e', rfl, hnum', htime'⟩

theorem hearAdvert_first {device : EbNDeviceBT2 P} (hdevice : device.epochs = []) {s : Sighting (EbNRadioBT2 P ec)}
    (hs : OnAir start s) : opensEpoch sha256 device s = true ∧ OpenedBy s (hearAdvert sha256 device s) := by
  unfold opensEpoch hearAdvert processEpochs OpenedBy
  rcases processAdvert_epochs sha256 device hs with ⟨_, hnot⟩ | ⟨e', hopened, hnum', htime', _⟩
  · rw [hdevice] at hnot
    exact absurd rfl hnot
  · rw [hopened, hdevice]
    exact ⟨rfl, e', rfl, hnum', htime'⟩

end EbNRadioBT2

/-! ## BT4 -/

namespace EbNRadioBT4
open Sddr.Erasure BT4

variable {P : Type} [FloatOps P] {ec : Ec} {sha256 : List Byte → Digest} {g : Galois} {start : Int}

/-- The advert `o` opened the last receiver epoch. -/
def OpenedBy (o : Sighting (EbNRadioBT4 P ec)) (device : EbNDeviceBT4 P ec) : Prop :=
  ∃ init e, device.epochs = init ++ [e] ∧ e.lastAdvertNum = o.advertNum ∧ e.lastAdvertTime = o.time

omit [FloatOps P] in
/-- An advert of a later sender epoch never goes to the current receiver epoch, and one of the same sender epoch is
never taken for anything but a duplicate or an advert of it if it comes in time. -/
theorem classify_onAir (init : List (Epoch P ec)) {o s : Sighting (EbNRadioBT4 P ec)} {e : Epoch P ec}
    (hnum : e.lastAdvertNum = o.advertNum) (htime : e.lastAdvertTime = o.time) (ho : OnAir start o)
    (hs : OnAir start s) (horder : o.Before s) :
    (classify (init ++ [e]) s.advertNum s.time = .isNew ↔ o.epoch < s.epoch) ↔ InTime o s := by
  obtain ⟨hepoch, hle⟩ := horder
  obtain ⟨holt, _, holow, hohigh⟩ := ho
  obtain ⟨hslt, _, hslow, hshigh⟩ := hs
  have hle' : o.time.toNat ≤ s.time.toNat := hle
  unfold classify InTime
  rw [List.getLast?_concat]
  dsimp only
  rw [hnum, htime, toNat_sub_time hle]
  simp only [Sighting.epochStart, EPOCH_INTERVAL, SCAN_INTERVAL, ADV_N] at holow hohigh hslow hshigh holt hslt
  rcases hepoch with hlater | ⟨hsame, hnums⟩
  · have hlater' : (o.epoch : Int) + 1 ≤ s.epoch := by exact_mod_cast hlater
    rw [if_pos hlater]
    simp only [hlater, iff_true]
    by_cases hpair : o.advertNum = s.advertNum ∨ o.advertNum = s.advertNum + 1
    · rw [if_pos hpair]
      by_cases hdup : s.time.toNat - o.time.toNat < ADV_N / 2 * SCAN_INTERVAL
      · rw [if_pos hdup]
        simp [hpair, hdup]
      · rw [if_neg hdup]
        simp [hpair, Nat.not_lt.mp hdup]
    · have hlate : ¬ (o.advertNum < s.advertNum ∧
          s.time.toNat - o.time.toNat < ((s.advertNum - o.advertNum) + 6) * SCAN_INTERVAL / 2) := by
        simp only [SCAN_INTERVAL]
        omega
      rw [if_neg hpair, if_neg hlate]
      simp [hpair]
  · have hnot : ¬ o.epoch < s.epoch := by omega
    rw [if_neg hnot]
    simp only [hnot, iff_false]
    rw [hsame] at holow hohigh
    rcases hnums.eq_or_lt with heq | hlt
    · have hsoon : s.time.toNat - o.time.toNat < ADV_N / 2 * SCAN_INTERVAL := by
        simp only [EPOCH_INTERVAL, SCAN_INTERVAL, ADV_N]
        omega
      rw [if_pos (Or.inl heq), if_pos hsoon]
      simp [heq]
    · rw [if_neg (by omega)]
      by_cases hsoon : s.time.toNat - o.time.toNat < ((s.advertNum - o.advertNum) + 6) * SCAN_INTERVAL / 2
      · rw [if_pos ⟨hlt, hsoon⟩]
        simp [hsoon]
      · rw [if_neg fun h => hsoon h.2]
        simp [hlt, hsoon]

variable (sha256) in
/-- The last epoch after an advert has the number and time that it was opened with. -/
theorem processAdvert_last {device : EbNDeviceBT4 P ec} {s : Sighting (EbNRadioBT4 P ec)} (hs : OnAir start s)
    {init : List (Epoch P ec)} {e : Epoch P ec} (hepochs : device.epochs = init ++ [e]) :
    let after := (s.receiver.processAdvert device s.time s.data).2.epochs
    ∃ init' e', after = init' ++ [e'] ∧
      (init'.length = init.length ∧ e'.lastAdvertNum = e.lastAdvertNum ∧ e'.lastAdvertTime = e.lastAdvertTime ∧
          classify device.epochs s.advertNum s.time ≠ .isNew ∨
        init'.length = init.length + 1 ∧ e'.lastAdvertNum = s.advertNum ∧ e'.lastAdvertTime = s.time ∧
          classify device.epochs s.advertNum s.time = .isNew) := by
  obtain ⟨hlt, hnumber, _⟩ := hs
  have hADV : s.advertNum < RS_K P ec + RS_M P ec := by
    unfold RS_M
    omega
  rw [processAdvert_epochs s.receiver device s.time hnumber hADV]
  dsimp only
  cases hclass : classify device.epochs s.advertNum s.time with
  | isDuplicate => exact ⟨init, e, hepochs, Or.inl ⟨rfl, rfl, rfl, by simp⟩⟩
  | current curEpoch =>
      have hcur := classify_current hclass
      rw [hepochs, List.getLast?_concat] at hcur
      cases hcur
      refine ⟨_, _, rfl, Or.inl ⟨?_, rfl, rfl, by simp⟩⟩
      rw [hepochs, List.dropLast_concat, List.length_modifyHead]
  | isNew =>
      refine ⟨_, _, rfl, Or.inr ⟨?_, rfl, rfl, rfl⟩⟩
      rw [hepochs, List.dropLast_concat, List.getLast?_concat]
      simp

variable (sha256 g) in
theorem hearAdvert_last {device : EbNDeviceBT4 P ec} {s : Sighting (EbNRadioBT4 P ec)} {init : List (Epoch P ec)}
    {e : Epoch P ec} (hepochs : (s.receiver.processAdvert device s.time s.data).2.epochs = init ++ [e]) :
    ∃ init' e', (hearAdvert sha256 g device s).epochs = init' ++ [e'] ∧ e'.lastAdvertNum = e.lastAdvertNum ∧
      e'.lastAdvertTime = e.lastAdvertTime := by
  unfold hearAdvert receive processEpochs
  rw [hepochs]
  obtain ⟨init', e', hrun, hsame⟩ := processEpochsFrom_last sha256 g s.receiver e init 0
    (s.receiver.processAdvert device s.time s.data).2.toEbNDevice
  exact ⟨init', e', hrun, hsame.lastAdvertNum, hsame.lastAdvertTime⟩

variable (sha256 g start) in
theorem hearAdvert_spec : StepSpec opensEpoch (hearAdvert sha256 g) OpenedBy
    (OnAir start : Sighting (EbNRadioBT4 P ec) → Prop) InTime := by
  rintro o device s ⟨init, e, hepochs, hnum, htime⟩ ho hs horder
  have hclass := classify_onAir init hnum htime ho hs horder
  obtain ⟨init', e', hafter, hcases⟩ := processAdvert_last hs hepochs
  obtain ⟨init₂, e₂, hrun, hnum₂, htime₂⟩ := hearAdvert_last sha256 g hafter
  rw [hepochs] at hcases
  rcases hcases with ⟨hlength, hnum', htime', hnot⟩ | ⟨hlength, hnum', htime', hnew⟩
  · have hclosed : opensEpoch device s = false := by
      unfold opensEpoch
      rw [hafter, hepochs]
      simp [hlength]
    rw [hclosed]
    refine ⟨?_, init₂, e₂, hrun, ?_, ?_⟩
    · simpa [hnot] using hclass
    · exact hnum₂.trans (hnum'.trans hnum)
    · exact htime₂.trans (htime'.trans htime)
  · have hopen : opensEpoch device s = true := by
      unfold opensEpoch
      rw [hafter, hepochs]
      simp [hlength]
    rw [hopen]
    refine ⟨?_, init₂, e₂, hrun, hnum₂.trans hnum', htime₂.trans htime'⟩
    simpa [hnew] using hclass

theorem hearAdvert_first {device : EbNDeviceBT4 P ec} (hdevice : device.epochs = [])
    {s : Sighting (EbNRadioBT4 P ec)} (hs : OnAir start s) :
    opensEpoch device s = true ∧ OpenedBy s (hearAdvert sha256 g device s) := by
  obtain ⟨hlt, hnumber, _⟩ := hs
  have hADV : s.advertNum < RS_K P ec + RS_M P ec := by
    unfold RS_M
    omega
  have hafter : (s.receiver.processAdvert device s.time s.data).2.epochs
      = [] ++ [receiveAdvert (BitMap.ofMem (31 * 8) s.data) s.advertNum
          (Epoch.new s.advertNum s.time s.receiver.dhCodeMatrix s.receiver.dhExchange device.address.yCoord)] := by
    unfold processAdvert
    dsimp only
    rw [hnumber, if_pos hADV, hdevice]
    change (s.receiver.receiveEpochs device s.time (BitMap.ofMem (31 * 8) s.data) s.advertNum .isNew) = _
    rw [receiveEpochs, hdevice]
    rfl
  refine ⟨?_, ?_⟩
  · unfold opensEpoch
    rw [hafter, hdevice]
    rfl
  · obtain ⟨init', e', hrun, hnum, htime⟩ := hearAdvert_last sha256 g hafter
    exact ⟨init', e', hrun, hnum, htime⟩

end EbNRadioBT4

end Sddr.Radio
