import Sddr.Control.Lemmas.EbNControllerBT4
import Sddr.Radio.Theorems.BT4

/-! # Main results about confirmed secrets and tracked devices -/

namespace Sddr.Control.EbNControllerBT4
open Sddr.Lib Sddr.Codec Sddr.Device Sddr.Radio Sddr.Erasure EbNController

section
variable {P : Type} [FloatOps P] {ec : Ec} (sha256 : List Byte → Digest) (g : Galois) (digest : List Byte → Nat)
  {confirmScheme : ConfirmScheme P} {now : Time} {key : ec.Key} {randomAddress : Address} {radio : EbNRadioBT4 P ec}
  (hnew : EbNRadioBT4.new g confirmScheme .Standard now key randomAddress = some radio)
  (rand scanRand : Nat → Nat) (random : Nat → Byte) (minStartTime maxStartTime : Time) (startSeen : Nat) (endTime : Time)
  (rssiThreshold : BitVec 8) (rssiReportInterval : Time) (actions : List (ActionBT4 ec))
include hnew

/-- Every confirmed secret of a device with a handshake is delivered once before the device ends, in just those runs in
which a device that ends without being discovered has no secret left to be reported and gets none from the queue. -/
theorem secrets_delivered_iff :
    let c₀ : EbNControllerBT4 P ec :=
      ⟨radio.initializeRadio sha256 rand scanRand random,
        EbNHystPolicy.new .Standard minStartTime maxStartTime startSeen endTime rssiThreshold, rssiReportInterval⟩
    (∃ events c, run sha256 g digest actions c₀ = some (events, c)) ∧
      (EveryDiscovery sha256 g digest
          (fun events c m => c.base.Delivers .Bluetooth4 digest events (c.meeting sha256 g m)) actions [] c₀ ↔
        EveryDiscovery sha256 g digest (fun _ c m => c.Settled sha256 g digest m) actions [] c₀) := by
  intro c₀
  obtain ⟨haudited, -⟩ := audited_start hnew rand scanRand random minStartTime maxStartTime startSeen endTime
    rssiThreshold rssiReportInterval
  obtain ⟨events, c, hrun, -⟩ := audited_run haudited actions
  exact ⟨⟨events, c, hrun⟩, everyDiscovery_delivers_iff haudited actions⟩

/-- The devices of the map are those that the policy tracks after every discovery, in just those runs in which each
device with a queued message is tracked, is discovered, or sent a valid public key. -/
theorem map_tracked_iff :
    let c₀ : EbNControllerBT4 P ec :=
      ⟨radio.initializeRadio sha256 rand scanRand random,
        EbNHystPolicy.new .Standard minStartTime maxStartTime startSeen endTime rssiThreshold, rssiReportInterval⟩
    (∃ events c, run sha256 g digest actions c₀ = some (events, c)) ∧
      (EveryDiscovery sha256 g digest
          (fun _ c m => ∀ events c', c.discover sha256 g digest m = some (events, c') → c'.base.Tracks) actions [] c₀ ↔
        EveryDiscovery sha256 g digest (fun _ c m => c.Reached sha256 g digest m) actions [] c₀) := by
  intro c₀
  obtain ⟨haudited, htracks⟩ := audited_start hnew rand scanRand random minStartTime maxStartTime startSeen endTime
    rssiThreshold rssiReportInterval
  obtain ⟨events, c, hrun, -⟩ := audited_run haudited actions
  exact ⟨⟨events, c, hrun⟩, everyDiscovery_tracks_iff haudited htracks actions⟩

end

/-! ## A connection from an unknown device -/

/-- A discovery that hears nothing. -/
def silence (time : Time) : MeetingBT4 :=
  ⟨fun _ => 0, fun _ => 0, [], 15000, fun _ => oneBucket, fun _ => none, time, time,
    fun _ => (time, time, time), time, fun _ => (time, time, time)⟩

/-- A device connects, and is not heard before it has expired. -/
def visit (lead : Byte) : List (ActionBT4 byteCurve) :=
  [.listen (List.replicate 6 0) (lead :: 3 :: List.replicate 162 0), .discover (silence 10000), .discover (silence 40000)]

/-- A controller whose policy ends an encounter after 20 seconds. -/
def patient (radio : EbNRadioBT4 LogRate byteCurve) : EbNControllerBT4 LogRate byteCurve :=
  ⟨radio.initializeRadio (fun _ => 0) (fun _ => 0) (fun _ => 0) (fun _ => 0),
    EbNHystPolicy.new .Standard 0 20000 1 20000 200, 10000⟩

theorem secrets_delivered_visit :
    ∃ r : EbNRadioBT4 LogRate byteCurve,
      EbNRadioBT4.new galoisShift ⟨.Active, some 4⟩ .Standard 0 (5 : Byte) (List.replicate 6 0) = some r ∧
        (∃ events c, run (fun _ => 0) galoisShift (fun _ => 0) (visit 2) (patient r) = some (events, c)) ∧
        (EveryDiscovery (fun _ => 0) galoisShift (fun _ => 0)
            (fun events c m => c.base.Delivers .Bluetooth4 (fun _ => 0) events (c.meeting (fun _ => 0) galoisShift m))
            (visit 2) [] (patient r) ↔
          EveryDiscovery (fun _ => 0) galoisShift (fun _ => 0)
            (fun _ c m => c.Settled (fun _ => 0) galoisShift (fun _ => 0) m) (visit 2) [] (patient r)) := by
  obtain ⟨r, hr⟩ := EbNRadioBT4.new_logRate ⟨.Active, some 4⟩ .Standard 0 (5 : Byte) (List.replicate 6 0)
  exact ⟨r, hr, secrets_delivered_iff (fun _ => 0) galoisShift (fun _ => 0) hr (fun _ => 0) (fun _ => 0) (fun _ => 0) 0 20000 1 20000
    200 10000 (visit 2)⟩

theorem map_tracked_visit :
    ∃ r : EbNRadioBT4 LogRate byteCurve,
      EbNRadioBT4.new galoisShift ⟨.Active, some 4⟩ .Standard 0 (5 : Byte) (List.replicate 6 0) = some r ∧
        (∃ events c, run (fun _ => 0) galoisShift (fun _ => 0) (visit 2) (patient r) = some (events, c)) ∧
        (EveryDiscovery (fun _ => 0) galoisShift (fun _ => 0)
            (fun _ c m => ∀ events c', c.discover (fun _ => 0) galoisShift (fun _ => 0) m = some (events, c') → c'.base.Tracks)
            (visit 2) [] (patient r) ↔
          EveryDiscovery (fun _ => 0) galoisShift (fun _ => 0)
            (fun _ c m => c.Reached (fun _ => 0) galoisShift (fun _ => 0) m) (visit 2) [] (patient r)) := by
  obtain ⟨r, hr⟩ := EbNRadioBT4.new_logRate ⟨.Active, some 4⟩ .Standard 0 (5 : Byte) (List.replicate 6 0)
  exact ⟨r, hr, map_tracked_iff (fun _ => 0) galoisShift (fun _ => 0) hr (fun _ => 0) (fun _ => 0) (fun _ => 0) 0 20000 1 20000
    200 10000 (visit 2)⟩

/-- A radio with the key of `patient` and nothing else. -/
def bareRadio : EbNRadioBT4 LogRate byteCurve :=
  { EbNRadio.new ⟨.Active, some 4⟩ .Standard 0 with
    dhCodeMatrix := ⟨0, 0, 0, []⟩, dhEncoder := .new ⟨0, 0, 0, []⟩, dhPrevSymbols := []
    dhExchange := ECDH.generateSecret (5 : Byte), advertNum := 0, advertBloom := .empty, advertBloomNum := 0
    randomAddress := [], advertData := .new 0, scanResponseData := .new 0, listenAdverts := [] }

/-- The first discovery of `visit`, as all radios have it. -/
def visitFirst (lead : Byte) :
    Option (List (EncounterEvent LogRate) × EbNController LogRate (EbNDeviceBT4 LogRate byteCurve)) :=
  let m : Meeting (fun _ => 0) (EbNDeviceBT4 LogRate byteCurve) :=
    ⟨[], 15000, [⟨List.replicate 6 0, oneBucket,
      EbNRadioBT4.messageEffect bareRadio (lead :: 3 :: List.replicate 162 0)⟩], fun _ => none, 10000, 10000,
      fun _ => (10000, 10000, 10000), 10000, fun _ => (10000, 10000, 10000)⟩
  EbNController.discover .Bluetooth4 (fun _ => 0)
    ⟨EbNRadio.new ⟨.Active, some 4⟩ .Standard 0, EbNHystPolicy.new .Standard 0 20000 1 20000 200, 10000⟩ m

theorem visit_first {r : EbNRadioBT4 LogRate byteCurve}
    (hr : EbNRadioBT4.new galoisShift ⟨.Active, some 4⟩ .Standard 0 (5 : Byte) (List.replicate 6 0) = some r) (lead : Byte) :
    ∃ c₁, (patient r).act (fun _ => 0) galoisShift (fun _ => 0)
        (.listen (List.replicate 6 0) (lead :: 3 :: List.replicate 162 0)) = some ([], c₁) ∧
      (c₁.discover (fun _ => 0) galoisShift (fun _ => 0) (silence 10000)).map (fun after => (after.1, after.2.base))
        = visitFirst lead := by
  let c₁ : EbNControllerBT4 LogRate byteCurve :=
    { patient r with
      radio := (patient r).radio.listen (List.replicate 6 0) (lead :: 3 :: List.replicate 162 0) }
  obtain ⟨hbase, hkey, hqueue⟩ :=
    base_initializeRadio (fun _ => 0) (fun _ => 0) (fun _ => 0) (fun _ => 0) r
  obtain ⟨hgenerated, -, hshared⟩ := EbNRadioBT4.new_fields galoisShift hr
  have hempty : r.listenAdverts = [] := by
    obtain ⟨_, -, rfl⟩ := Option.map_eq_some_iff.mp hr
    rfl
  have hlisten : c₁.radio = { (patient r).radio with
      listenAdverts := (patient r).radio.listenAdverts ++ [(List.replicate 6 0, lead :: 3 :: List.replicate 162 0)] } := by
    refine listen_accepted ?_ (by decide) ?_ ⟨3, List.mem_cons_of_mem _ List.mem_cons_self, by decide⟩
    · show (r.initializeRadio _ _ _ _).toEbNRadio.confirmScheme.type.hasActive = true
      rw [hbase, hshared]
      rfl
    · rw [List.length_cons, List.length_cons, List.length_replicate]
      rfl
  have hbase₁ : c₁.base = ⟨EbNRadio.new ⟨.Active, some 4⟩ .Standard 0,
      EbNHystPolicy.new .Standard 0 20000 1 20000 200, 10000⟩ := by
    show (⟨c₁.radio.toEbNRadio, _, _⟩ : EbNController LogRate (EbNDeviceBT4 LogRate byteCurve)) = _
    rw [hlisten]
    show (⟨(r.initializeRadio _ _ _ _).toEbNRadio, _, _⟩ : EbNController LogRate (EbNDeviceBT4 LogRate byteCurve)) = _
    rw [hbase, hshared]
    rfl
  have hqueue₁ : c₁.radio.listenAdverts = [(List.replicate 6 0, lead :: 3 :: List.replicate 162 0)] := by
    rw [hlisten]
    show (r.initializeRadio _ _ _ _).listenAdverts ++ _ = _
    rw [hqueue, hempty]
    rfl
  have hkey₁ : (c₁.scanner (fun _ => 0) (silence 10000)).dhExchange = bareRadio.dhExchange := by
    refine (EbNRadioBT4.discover_dhExchange (fun _ => 0) _ _ _).trans ?_
    rw [hlisten]
    exact hkey.trans hgenerated
  refine ⟨c₁, rfl, ?_⟩
  rw [discover_base, hbase₁, meeting]
  rw [hqueue₁, List.mapIdx_cons, List.mapIdx_nil, messageEffect_congr hkey₁]
  rfl

/-- The device expires with a secret that was never reported. -/
theorem secrets_delivered_fails :
    ∃ r : EbNRadioBT4 LogRate byteCurve,
      EbNRadioBT4.new galoisShift ⟨.Active, some 4⟩ .Standard 0 (5 : Byte) (List.replicate 6 0) = some r ∧
        ¬ EveryDiscovery (fun _ => 0) galoisShift (fun _ => 0)
          (fun events c m => c.base.Delivers .Bluetooth4 (fun _ => 0) events (c.meeting (fun _ => 0) galoisShift m))
          (visit 2) [] (patient r) := by
  obtain ⟨r, hr⟩ := EbNRadioBT4.new_logRate ⟨.Active, some 4⟩ .Standard 0 (5 : Byte) (List.replicate 6 0)
  refine ⟨r, hr, fun hdelivers => ?_⟩
  have haudited : (patient r).base.Audited [] :=
    (audited_start hr (fun _ => 0) (fun _ => 0) (fun _ => 0) 0 20000 1 20000 200 10000).1
  obtain ⟨-, hlistened⟩ := (everyDiscovery_delivers_iff haudited _).mp hdelivers
  obtain ⟨c₁, hlisten, hfirst⟩ := visit_first hr 2
  have hleft : (visitFirst 2).map (fun after =>
      (after.2.radio.deviceMap.idToDevice.lookup 0, (after.2.radio.baseAt 0).shakenHands,
        (after.2.radio.baseAt 0).secretsToReport.length, after.2.hystPolicy.endTime,
        after.2.hystPolicy.lastTime 40000 0)) = some (some 0, true, 1, 20000, 10000) := by
    decide +kernel
  rw [← hfirst, Option.map_map] at hleft
  obtain ⟨⟨events, c₂⟩, hdiscover, hleft⟩ := Option.map_eq_some_iff.mp hleft
  simp only [Function.comp_apply, Prod.mk.injEq] at hleft
  obtain ⟨hmap, hshaken, hpending, hend, hlast⟩ := hleft
  -- at the second discovery the device has been silent for 30 seconds
  obtain ⟨-, hsecond⟩ := hlistened [] c₁ hlisten
  obtain ⟨hsettled, -⟩ := hsecond events c₂ hdiscover
  have hin : 0 ∈ c₂.base.radio.deviceMap.idToDevice := AList.lookup_isSome.mp (Option.isSome_iff_exists.mpr ⟨0, hmap⟩)
  have hlate : c₂.hystPolicy.endTime < (40000 : Time) - c₂.hystPolicy.lastTime 40000 0 := by
    change c₂.base.hystPolicy.endTime < (40000 : Time) - c₂.base.hystPolicy.lastTime 40000 0
    rw [hend, hlast]
    decide
  obtain ⟨hnone, -⟩ := hsettled (silence 40000) rfl [] _ rfl 0 List.not_mem_nil hlate (Or.inl ⟨hin, hshaken⟩)
  change (c₂.base.radio.baseAt 0).secretsToReport = [] at hnone
  rw [hnone] at hpending
  cases hpending

theorem map_tracked_fails :
    ∃ r : EbNRadioBT4 LogRate byteCurve,
      EbNRadioBT4.new galoisShift ⟨.Active, some 4⟩ .Standard 0 (5 : Byte) (List.replicate 6 0) = some r ∧
        ¬ EveryDiscovery (fun _ => 0) galoisShift (fun _ => 0)
          (fun _ c m => ∀ events c', c.discover (fun _ => 0) galoisShift (fun _ => 0) m = some (events, c') → c'.base.Tracks)
          (visit 1) [] (patient r) := by
  obtain ⟨r, hr⟩ := EbNRadioBT4.new_logRate ⟨.Active, some 4⟩ .Standard 0 (5 : Byte) (List.replicate 6 0)
  refine ⟨r, hr, fun htracks => ?_⟩
  obtain ⟨c₁, hlisten, hfirst⟩ := visit_first hr 1
  have hleft : (visitFirst 1).map (fun after =>
      (after.2.radio.deviceMap.idToDevice.lookup 0, after.2.hystPolicy.deviceInfo.lookup 0)) = some (some 0, none) := by
    decide +kernel
  rw [← hfirst, Option.map_map] at hleft
  obtain ⟨⟨events, c₂⟩, hdiscover, hleft⟩ := Option.map_eq_some_iff.mp hleft
  obtain ⟨hmap, hinfo⟩ := Prod.mk.inj hleft
  obtain ⟨hafter, -⟩ := htracks.2 [] c₁ hlisten
  have hin := (hafter (silence 10000) rfl events c₂ hdiscover 0).mp
    (AList.lookup_isSome.mp (Option.isSome_iff_exists.mpr ⟨0, hmap⟩))
  exact AList.lookup_eq_none.mp hinfo hin

end Sddr.Control.EbNControllerBT4
