import Sddr.Radio.Lemmas.Burst
import Sddr.Radio.Theorems.BT4

/-! # Main results about the secrets of tracked devices -/

namespace Sddr.Radio.EbNRadioBT4
open Sddr.Lib Sddr.Codec Sddr.Device Sddr.Erasure BT4

/-- Once an epoch is decoded, the device holds the secrets of all keys that were current in it. This needs that active
confirmation is off, or that it has provided the secrets of the queued keys by then. -/
theorem tracked_complete {P : Type} [FloatOps P] {ec : Ec} (hlaws : ec.Laws) (sha256 : List Byte → Digest) (g : Galois)
    (r : EbNRadioBT4 P ec) (hscheme : r.confirmScheme.type.hasPassive = true) (id : DeviceID) (address : Address)
    (listenSet : List LinkValue) (events : List (TrackEvent P ec))
    (hfair : r.confirmScheme.type.hasActive = true →
      FairTrack sha256 g ⟨r, EbNDevice.new id address listenSet, [], []⟩ events) :
    let t := events.foldl (Track.step sha256 g) ⟨r, EbNDevice.new id address listenSet, [], []⟩
    (t.radio, t.target) = events.foldl (TrackEvent.run sha256 g) (r, EbNDeviceBT4.new id address listenSet) ∧
      ∀ e ∈ t.epochs ++ t.past, e.Complete t.device := by
  have hstart : Track.Inv (⟨r, EbNDevice.new id address listenSet, [], []⟩ : Track P ec) :=
    ⟨hscheme, fun e he => absurd he List.not_mem_nil, fun e he => absurd he List.not_mem_nil⟩
  have hrun : FairTrack sha256 g ⟨r, EbNDevice.new id address listenSet, [], []⟩ events := by
    cases hactive : r.confirmScheme.type.hasActive with
    | true => exact hfair hactive
    | false => exact fairTrack_passive hactive events
  obtain ⟨hinv, htarget⟩ := hstart.run hlaws events hrun
  refine ⟨htarget, fun e he => ?_⟩
  rcases List.mem_append.mp he with he | he
  · exact (hinv.sound e he).complete
  · exact hinv.past e he

/-- The key that the first adverts of a sender with the key 5 carry. -/
theorem publicBlock_first {r : EbNRadioBT4 LogRate byteCurve} {confirmScheme : ConfirmScheme LogRate}
    (hr : new galoisShift confirmScheme .Standard 0 (5 : Byte) (List.replicate 6 0) = some r)
    (plans : Nat → EpochPlan LogRate byteCurve) :
    (epochSender (fun _ => 0) galoisShift plans r 0).publicBlock = 5 :: List.replicate 23 0 := by
  obtain ⟨hsize, -, -, -⟩ := size_facts confirmValues_logRate byteCurve
  show r.dhExchange.getPublicX.take _ = _
  rw [(new_fields galoisShift hr).1, Nat.mul_comm,
    Nat.eq_of_mul_eq_mul_left (by decide : 0 < 8) (hsize.trans (by decide : _ = 8 * 24))]
  rfl

/-- In the Hybrid scheme, an active handshake adds the secret of two equal keys, and then the first `K` adverts are heard. -/
theorem tracked_complete_handshake :
    ∃ r : EbNRadioBT4 LogRate byteCurve,
      new galoisShift ⟨.Hybrid, some 4⟩ .Standard 0 (5 : Byte) (List.replicate 6 0) = some r ∧
        let plans : Nat → EpochPlan LogRate byteCurve := fun _ =>
          ⟨RS_K LogRate byteCurve, fun _ => id, fun _ => r.toEbNRadio, (7 : Byte), List.replicate 6 1⟩
        let secret : SharedSecret LogRate := { SharedSecret.ofScheme .active with value := 25 :: List.replicate 23 0 }
        let events := TrackEvent.operation (.addSharedSecret secret) :: (List.range' 0 (RS_K LogRate byteCurve)).map fun n =>
          .advert 0 (Mem.ofList (epochAdvert (fun _ => 0) galoisShift plans r 0 n))
        let t := events.foldl (Track.step (fun _ => 0) galoisShift)
          ⟨r, EbNDevice.new 0 (List.replicate 6 0) [[1]], [], []⟩
        (t.radio, t.target) = events.foldl (TrackEvent.run (fun _ => 0) galoisShift)
            (r, EbNDeviceBT4.new 0 (List.replicate 6 0) [[1]]) ∧
          ∀ e ∈ t.epochs ++ t.past, e.Complete t.device := by
  obtain ⟨parts, hcode⟩ := code_of_codable confirmValues_logRate
    (codable_galoisShift (by decide) (by decide) (by decide) _ : Codable galoisShift (RS_K LogRate byteCurve)
      (RS_M LogRate byteCurve + 2 * (RS_K LogRate byteCurve - 1)) (RS_W LogRate byteCurve))
  obtain ⟨r, hr⟩ := new_logRate ⟨.Hybrid, some 4⟩ .Standard 0 (5 : Byte) (List.replicate 6 0)
  obtain ⟨hkey, -, hbase⟩ := new_fields galoisShift hr
  have hsender : Reachable (fun _ => 0) galoisShift r := .new hr
  refine ⟨r, hr, ?_⟩
  intro plans secret events
  refine tracked_complete byteCurve_laws _ _ r (by rw [hbase]; rfl) _ _ _ events fun _ => ⟨trivial, ?_⟩
  let device : EbNDevice LogRate := (EbNDevice.new 0 (List.replicate 6 0) [[1]]).addSharedSecret secret
  obtain ⟨e, hburst⟩ := burst_start device plans confirmValues_logRate hcode hsender
    (hsender.built confirmValues_logRate hcode) 0
  refine hburst.fairTrack confirmValues_logRate hcode hsender _ (Nat.zero_add _) ?_
  rw [publicBlock_first hr, hkey]
  intro p hp dhExchange hin v hv
  rw [List.mem_singleton.mp hin] at hv
  have hfive : p = (5 : Byte) := (List.cons.inj (List.cons.inj hp).2).1
  subst hfive
  cases hv
  exact List.mem_singleton_self _

/-! ## Hybrid confirmation -/

/-- In the Hybrid scheme, a device whose key is decoded from its first adverts has no secret. -/
theorem tracked_complete_fails :
    ∃ r : EbNRadioBT4 LogRate byteCurve,
      new galoisShift ⟨.Hybrid, some 4⟩ .Standard 0 (5 : Byte) (List.replicate 6 0) = some r ∧
        r.confirmScheme.type.hasPassive = true ∧
        let plans : Nat → EpochPlan LogRate byteCurve := fun _ =>
          ⟨RS_K LogRate byteCurve, fun _ => id, fun _ => r.toEbNRadio, (7 : Byte), List.replicate 6 1⟩
        let events := (List.range (RS_K LogRate byteCurve)).map fun n =>
          TrackEvent.advert 0 (Mem.ofList (epochAdvert (fun _ => 0) galoisShift plans r 0 n))
        let t := events.foldl (Track.step (fun _ => 0) galoisShift)
          ⟨r, EbNDevice.new 0 (List.replicate 6 0) [[1]], [], []⟩
        ¬∀ e ∈ t.epochs ++ t.past, e.Complete t.device := by
  obtain ⟨parts, hcode⟩ := code_of_codable confirmValues_logRate
    (codable_galoisShift (by decide) (by decide) (by decide) _ : Codable galoisShift (RS_K LogRate byteCurve)
      (RS_M LogRate byteCurve + 2 * (RS_K LogRate byteCurve - 1)) (RS_W LogRate byteCurve))
  obtain ⟨r, hr⟩ := new_logRate ⟨.Hybrid, some 4⟩ .Standard 0 (5 : Byte) (List.replicate 6 0)
  obtain ⟨hkey, -, hbase⟩ := new_fields galoisShift hr
  have hsender : Reachable (fun _ => 0) galoisShift r := .new hr
  have hactive : r.confirmScheme.type.hasActive = true := by
    rw [hbase]
    rfl
  refine ⟨r, hr, by rw [hbase]; rfl, ?_⟩
  intro plans events t hcomplete
  obtain ⟨hsilent, e, hepochs, hdecoded, hdata, hy⟩ := burst_decodes
    (EbNDevice.new 0 (List.replicate 6 0) [[1]]) plans confirmValues_logRate hcode hsender
    (hsender.built confirmValues_logRate hcode) hactive 0 rfl
  have hholds := hcomplete _ (List.mem_append_left _ (hepochs ▸ List.mem_singleton_self _)) hdecoded
  rw [hdata, publicBlock_first hr, hy] at hholds
  have hmem := hholds (5 : Byte) rfl r.dhExchange (List.mem_singleton_self _) _ rfl
  rw [hsilent] at hmem
  cases hmem

end Sddr.Radio.EbNRadioBT4
