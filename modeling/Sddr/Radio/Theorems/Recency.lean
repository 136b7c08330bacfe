import Sddr.Radio.Lemmas.Recency

/-! # Main results about the recent devices -/

namespace Sddr.Radio
open Sddr.Lib Sddr.Codec Sddr.Device

/-- After any calls the list holds the devices whose last call added them, each once and the most recent one first, and
the index maps their ids to their nodes. -/
theorem EbNRadio.recentDevices_moveToFront {P D : Type} [Addressed D] (r : EbNRadio P D)
    (calls : List (Touch DeviceID DeviceID))
    (hlive : ∀ device, .add device ∈ calls → (r.heap device).isSome = true) :
    ∃ recent, runs EbNRadio.touchRecent calls r.withoutRecent = some { r with recent } ∧
      (let devices := recent.nodes.map Prod.snd
       (∀ device, device ∈ devices ↔ lastTouch r.idOf calls (r.idOf device) = some (.add device)) ∧
       (devices.map r.idOf).Nodup ∧
       devices.Pairwise fun device device' => age r.idOf calls (r.idOf device) < age r.idOf calls (r.idOf device')) ∧
      (recent.nodes.map Prod.fst).Nodup ∧
      ∀ id node, recent.index.lookup id = some node ↔ ∃ device, (node, device) ∈ recent.nodes ∧ r.idOf device = id := by
  obtain ⟨recent, hruns, hindexed, hnodes⟩ := EbNRadio.runs_touchRecent r.withoutRecent_indexed calls hlive
  have hfronted : Fronted r.idOf calls (recent.nodes.map Prod.snd) := by
    rw [hnodes]
    exact fronted_foldl calls
  exact ⟨recent, hruns, ⟨hfronted.mem, hfronted.nodup, hfronted.order⟩, hindexed.nodup, hindexed.index⟩

/-- Two devices, of which one is added again and the other removed. -/
theorem EbNRadio.recentDevices_moveToFront_two :
    let start : EbNRadio LogRate (EbNDevice LogRate) := EbNRadio.new ⟨.None, none⟩ .Standard 0
    let r : EbNRadio LogRate (EbNDevice LogRate) :=
      { start with heap := fun p => if p < 2 then some (EbNDevice.new p [] []) else none }
    let calls : List (Touch DeviceID DeviceID) := [.add 0, .add 1, .add 0, .remove 1]
    ∃ recent, runs EbNRadio.touchRecent calls r.withoutRecent = some { r with recent } ∧
      (let devices := recent.nodes.map Prod.snd
       (∀ device, device ∈ devices ↔ lastTouch r.idOf calls (r.idOf device) = some (.add device)) ∧
       (devices.map r.idOf).Nodup ∧
       devices.Pairwise fun device device' => age r.idOf calls (r.idOf device) < age r.idOf calls (r.idOf device')) ∧
      (recent.nodes.map Prod.fst).Nodup ∧
      ∀ id node, recent.index.lookup id = some node ↔ ∃ device, (node, device) ∈ recent.nodes ∧ r.idOf device = id :=
  EbNRadio.recentDevices_moveToFront _ _ (by simp)

end Sddr.Radio
