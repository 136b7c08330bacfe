import Sddr.Radio.Lemmas.Schedule
import Sddr.Radio.Theorems.BT2
import Sddr.Radio.Theorems.BT4

/-! # Main results about receiver epochs -/

namespace Sddr.Radio
open Sddr.Lib Sddr.Codec Sddr.Device

namespace EbNRadioBT2
open BT2

/-- Whichever adverts of a sender are heard, an advert opens a receiver epoch exactly when it belongs to a later sender
epoch than the current receiver epoch, so there is one for each sender epoch that is heard. -/
theorem opens_per_epoch {P : Type} [FloatOps P] {ec : Ec} (sha256 : List Byte → Digest) (start : Int)
    (device : EbNDeviceBT2 P) (hdevice : device.epochs = []) (sightings : List (Sighting (EbNRadioBT2 P ec)))
    (honAir : ∀ s ∈ sightings, OnAir start s) (horder : sightings.Pairwise Sighting.Before) :
    OpensPerEpoch (opensEpoch sha256) (hearAdvert sha256) none device sightings ∧
      (openings (opensEpoch sha256) (hearAdvert sha256) device sightings).Pairwise (· < ·) ∧
      ∀ k, k ∈ openings (opensEpoch sha256) (hearAdvert sha256) device sightings ↔ ∃ s ∈ sightings, s.epoch = k := by
  have hopens : OpensPerEpoch (opensEpoch sha256) (hearAdvert sha256) none device sightings :=
    (opensPerEpoch_iff (hearAdvert_spec sha256 start) (fun _ hs => hearAdvert_first hdevice hs) honAir horder).mpr
      (allFit_of_forall (fun _ _ => trivial) none sightings)
  obtain ⟨hsorted, hmem⟩ := hopens.openings horder fun k hk => by cases hk
  exact ⟨hopens, hsorted, fun k => by simp [hmem]⟩

/-- The bytes of a response with advert number `n`. -/
def numberData (n : Byte) : Mem := fun i => if i = 2 then n <<< 1 else 0

/-- Adverts 3 and 5 of the first sender epoch, and advert 3 of the next one. -/
def threeSightings : List (Sighting (EbNRadioBT2 LogRate byteCurve)) :=
  [⟨0, 3, 180000, numberData 3, oneValueRadio⟩, ⟨0, 5, 300000, numberData 5, oneValueRadio⟩,
    ⟨1, 3, 1080000, numberData 3, oneValueRadio⟩]

theorem opens_per_epoch_three :
    OpensPerEpoch (opensEpoch fun _ => 0) (hearAdvert fun _ => 0) none oneValueDevice threeSightings ∧
      (openings (opensEpoch fun _ => 0) (hearAdvert fun _ => 0) oneValueDevice threeSightings).Pairwise (· < ·) ∧
      ∀ k, k ∈ openings (opensEpoch fun _ => 0) (hearAdvert fun _ => 0) oneValueDevice threeSightings
        ↔ ∃ s ∈ threeSightings, s.epoch = k := by
  exact opens_per_epoch (fun _ => 0) 0 oneValueDevice rfl threeSightings (by decide) (by decide)

end EbNRadioBT2

namespace EbNRadioBT4
open Sddr.Erasure BT4

/-- An advert opens a receiver epoch exactly when it belongs to a later sender epoch, in just those runs in which the
numbers and times fit: `classify` takes a later advert with the same number for a duplicate for 904.5 s, longer than
an epoch is, and leaves too little time for the jitter of a whole epoch. -/
theorem opens_per_epoch_iff {P : Type} [FloatOps P] {ec : Ec} (sha256 : List Byte → Digest) (g : Galois) (start : Int)
    (device : EbNDeviceBT4 P ec) (hdevice : device.epochs = []) (sightings : List (Sighting (EbNRadioBT4 P ec)))
    (honAir : ∀ s ∈ sightings, OnAir start s) (horder : sightings.Pairwise Sighting.Before) :
    OpensPerEpoch opensEpoch (hearAdvert sha256 g) none device sightings ↔ Sighting.AllFit InTime none sightings :=
  opensPerEpoch_iff (hearAdvert_spec sha256 g start) (fun _ hs => hearAdvert_first hdevice hs) honAir horder

/-- The bytes of a response with advert number `n`. -/
def numberData (n : Nat) : Mem := Mem.ofList ((BitMap.new (31 * 8)).writeNumber 1 n ADV_N_LOG2).toBytes

theorem onAir_numberData {epoch n : Nat} {time : Time} (r : EbNRadioBT4 LogRate byteCurve)
    (h : n < ADV_N ∧ (BitMap.ofMem (31 * 8) (numberData n)).readNumber 1 ADV_N_LOG2 = n ∧
      (0 + epoch * EPOCH_INTERVAL : Int) + ((n / 2 : Nat) : Int) * ((SCAN_INTERVAL : Int) - 1000) ≤ time.toNat ∧
      time.toNat ≤ (0 + epoch * EPOCH_INTERVAL : Int) + (((n / 2 : Nat) : Int) + 2) * ((SCAN_INTERVAL : Int) + 1000)) :
    OnAir 0 ⟨epoch, n, time, numberData n, r⟩ := h

theorem before_numberData {epoch epoch' n n' : Nat} {time time' : Time} (r : EbNRadioBT4 LogRate byteCurve)
    (h : (epoch < epoch' ∨ epoch = epoch' ∧ n ≤ n') ∧ time ≤ time') :
    Sighting.Before ⟨epoch, n, time, numberData n, r⟩ ⟨epoch', n', time', numberData n', r⟩ := h

/-- Advert 0 of two epochs, the second more than 904.5 s after the first, and advert 24 of the second one. -/
def fittingSightings (r : EbNRadioBT4 LogRate byteCurve) : List (Sighting (EbNRadioBT4 LogRate byteCurve)) :=
  [⟨0, 0, 0, numberData 0, r⟩, ⟨1, 0, 904500, numberData 0, r⟩, ⟨1, 24, 1103000, numberData 24, r⟩]

theorem opens_per_epoch_iff_fitting :
    ∃ r : EbNRadioBT4 LogRate byteCurve,
      new galoisShift ⟨.Passive, some 4⟩ .Standard 0 (5 : Byte) (List.replicate 6 0) = some r ∧
        (OpensPerEpoch opensEpoch (hearAdvert (fun _ => 0) galoisShift) none (EbNDeviceBT4.new 0 (List.replicate 6 0) [])
            (fittingSightings r)
          ↔ Sighting.AllFit InTime none (fittingSightings r)) := by
  obtain ⟨r, hr⟩ := new_logRate ⟨.Passive, some 4⟩ .Standard 0 (5 : Byte) (List.replicate 6 0)
  refine ⟨r, hr, opens_per_epoch_iff (fun _ => 0) galoisShift 0 (EbNDeviceBT4.new 0 (List.replicate 6 0) []) rfl
    (fittingSightings r) ?_ ?_⟩
  · simp only [fittingSightings, List.forall_mem_cons]
    exact ⟨onAir_numberData r (by decide), onAir_numberData r (by decide), onAir_numberData r (by decide),
      fun s hs => by cases hs⟩
  · simp only [fittingSightings, List.pairwise_cons, List.forall_mem_cons]
    exact ⟨⟨before_numberData r (by decide), before_numberData r (by decide), fun s hs => by cases hs⟩,
      ⟨before_numberData r (by decide), fun s hs => by cases hs⟩, (fun s hs => by cases hs), .nil⟩

/-- Without any jitter the first advert of the next epoch is discarded as a duplicate, and with the most there can be
advert 24 opens a second receiver epoch for its sender epoch. -/
theorem opens_per_epoch_fails :
    ∃ r : EbNRadioBT4 LogRate byteCurve,
      new galoisShift ⟨.Passive, some 4⟩ .Standard 0 (5 : Byte) (List.replicate 6 0) = some r ∧
        ∀ s ∈ [(⟨1, 0, 900000, numberData 0, r⟩ : Sighting (EbNRadioBT4 LogRate byteCurve)), ⟨0, 24, 203000, numberData 24, r⟩],
          let sightings : List (Sighting (EbNRadioBT4 LogRate byteCurve)) := [⟨0, 0, 0, numberData 0, r⟩, s]
          (∀ s ∈ sightings, OnAir 0 s) ∧ sightings.Pairwise Sighting.Before ∧
            ¬ OpensPerEpoch opensEpoch (hearAdvert (fun _ => 0) galoisShift) none
              (EbNDeviceBT4.new 0 (List.replicate 6 0) []) sightings := by
  obtain ⟨r, hr⟩ := new_logRate ⟨.Passive, some 4⟩ .Standard 0 (5 : Byte) (List.replicate 6 0)
  refine ⟨r, hr, fun s hs => ?_⟩
  intro sightings
  have hall : (∀ s ∈ sightings, OnAir 0 s) ∧ sightings.Pairwise Sighting.Before ∧
      ¬ Sighting.AllFit InTime none sightings := by
    simp only [List.mem_cons, List.not_mem_nil, or_false] at hs
    rcases hs with rfl | rfl
    · simp only [sightings, List.forall_mem_cons, List.pairwise_cons]
      refine ⟨⟨onAir_numberData r (by decide), onAir_numberData r (by decide), fun s hs => by cases hs⟩,
        ⟨⟨before_numberData r (by decide), fun s hs => by cases hs⟩, (fun s hs => by cases hs), .nil⟩, fun h => ?_⟩
      have hlate : ADV_N / 2 * SCAN_INTERVAL ≤ (900000 : Time).toNat - (0 : Time).toNat := h.1 (Or.inl rfl)
      exact absurd hlate (by decide)
    · simp only [sightings, List.forall_mem_cons, List.pairwise_cons]
      refine ⟨⟨onAir_numberData r (by decide), onAir_numberData r (by decide), fun s hs => by cases hs⟩,
        ⟨⟨before_numberData r (by decide), fun s hs => by cases hs⟩, (fun s hs => by cases hs), .nil⟩, fun h => ?_⟩
      have hsoon : (203000 : Time).toNat - (0 : Time).toNat < ((24 - 0) + 6) * SCAN_INTERVAL / 2 :=
        h.1 (by decide : (0 : Nat) < 24)
      exact absurd hsoon (by decide)
  obtain ⟨honAir, horder, hnot⟩ := hall
  refine ⟨honAir, horder, fun h => hnot ?_⟩
  exact (opensPerEpoch_iff (hearAdvert_spec (fun _ => 0) galoisShift 0)
    (fun _ hs => hearAdvert_first rfl hs) honAir horder).mp h

end EbNRadioBT4

end Sddr.Radio
