import Sddr.Control.Lemmas.Lookups
import Sddr.Radio.Devices

/-! # Main results about the runs of the controller -/

namespace Sddr.Control.EbNController
open Sddr.Lib Sddr.Codec Sddr.Device Sddr.Radio

variable {P D : Type} [FloatOps P] [IsDevice D P] [Addressed D] [RadioDevice D] {sha256 : List Byte → Digest}

/-- The events of one device come in their order, whatever the radio meets and whatever the clock shows. -/
theorem events_inOrder (version : Version) (digest : List Byte → Nat) (confirmScheme : ConfirmScheme P)
    (now minStartTime maxStartTime : Time) (startSeen : Nat) (endTime : Time) (rssiThreshold : BitVec 8)
    (rssiReportInterval : Time) (actions : List (Action sha256 D)) :
    let c₀ : EbNController P D :=
      ⟨EbNRadio.new confirmScheme .Standard now,
        EbNHystPolicy.new .Standard minStartTime maxStartTime startSeen endTime rssiThreshold, rssiReportInterval⟩
    ∃ events c, run version digest actions c₀ = some (events, c) ∧ ∀ id, InOrder (typesOf events id) := by
  intro c₀
  have hstart : c₀.Follows [] :=
    .new confirmScheme now minStartTime maxStartTime startSeen endTime rssiThreshold rssiReportInterval
  obtain ⟨events, c, hrun, hfollows⟩ := hstart.run version digest actions
  exact ⟨events, c, hrun, hfollows.told.order⟩

/-- The radio is asked about devices that it has in just those runs in which no discovery starts with recent devices
while nothing is to be remembered. -/
theorem looksUp_iff (version : Version) (digest : List Byte → Nat) (confirmScheme : ConfirmScheme P)
    (memoryScheme : MemoryScheme) (now : Time) (scheme : Scheme) (minStartTime maxStartTime : Time) (startSeen : Nat)
    (endTime : Time) (rssiThreshold : BitVec 8) (rssiReportInterval : Time) (actions : List (Action sha256 D)) :
    let c₀ : EbNController P D :=
      ⟨EbNRadio.new confirmScheme memoryScheme now,
        EbNHystPolicy.new scheme minStartTime maxStartTime startSeen endTime rssiThreshold, rssiReportInterval⟩
    EveryAction version digest (LooksUp version digest) actions c₀ ↔ EveryAction version digest Remembered actions c₀ :=
  everyAction_iff version digest (.new confirmScheme memoryScheme now scheme minStartTime maxStartTime startSeen endTime rssiThreshold
    rssiReportInterval) actions

/-- With `--churn`, a device that was discovered is still recent when the next discovery clears the map. -/
theorem looksUp_fails :
    let response : Response (fun _ => 0) (EbNDeviceBT2 LogRate) :=
      ⟨[0, 0, 0, 0, 0, 0], 100, 0, ⟨1, fun entries => entries, fun _ => .refl _⟩, ⟨fun d => d, fun _ => .refl _⟩⟩
    let m : Meeting (fun _ => 0) (EbNDeviceBT2 LogRate) :=
      ⟨[response], 60000, [], fun _ => none, 200, 300, fun _ => (400, 400, 400), 500, fun _ => (600, 600, 600)⟩
    let c₀ : EbNController LogRate (EbNDeviceBT2 LogRate) :=
      ⟨EbNRadio.new ⟨.Passive, FloatOps.one⟩ .NoMemory 0, EbNHystPolicy.new .ImmediateNoMem 0 20000 1 20000 200, 10000⟩
    ¬ EveryAction .Bluetooth2 (fun _ => 0) (LooksUp .Bluetooth2 fun _ => 0) [.discover m, .discover m] c₀ := by
  intro response m c₀ hlooks
  have hstart : c₀.Knows := .new _ .NoMemory 0 .ImmediateNoMem 0 20000 1 20000 200 10000
  obtain ⟨-, hrest⟩ := (everyAction_iff .Bluetooth2 (fun _ => 0) hstart _).mp hlooks
  have hfirst : (c₀.act .Bluetooth2 (fun _ => 0) (.discover m)).map
      (fun after => (after.2.radio.memoryScheme, after.2.radio.recent.nodes.length)) = some (.NoMemory, 1) := by
    decide +kernel
  obtain ⟨⟨events, c⟩, hact, hafter⟩ := Option.map_eq_some_iff.mp hfirst
  obtain ⟨hmemory, hlength⟩ := Prod.mk.inj hafter
  rw [(hrest events c hact).1 hmemory] at hlength
  cases hlength

end Sddr.Control.EbNController
