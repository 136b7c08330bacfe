import Sddr.Radio.Lemmas.RecentDevices
import Sddr.Radio.Recency

/-!
# The recent devices over many calls

The nodes hold what a move-to-front list holds, and the index stays theirs.
-/

namespace Sddr.Radio
open Sddr.Lib Sddr.Codec Sddr.Device

namespace EbNRadio

variable {P D : Type} [Addressed D] {r : EbNRadio P D}

theorem map_filter_nodes (nodes : List (Nat × DeviceID)) (idOf : DeviceID → DeviceID) (id : DeviceID) :
    (nodes.filter fun entry => idOf entry.2 ≠ id).map Prod.snd
      = (nodes.map Prod.snd).filter fun device => idOf device ≠ id := by
  rw [List.filter_map]
  rfl

theorem touchRecent_spec (h : r.recent.Indexed r.idOf) (call : Touch DeviceID DeviceID)
    (hlive : ∀ device, call = .add device → (r.heap device).isSome = true) :
    ∃ recent, r.touchRecent call = some { r with recent } ∧ recent.Indexed r.idOf ∧
      recent.nodes.map Prod.snd = moveToFront r.idOf (r.recent.nodes.map Prod.snd) call := by
  cases call with
  | add device =>
      obtain ⟨d, hd⟩ := Option.isSome_iff_exists.mp (hlive device rfl)
      have hid : Addressed.getID d = r.idOf device := by simp [idOf, hd]
      obtain ⟨recent, node, hadd, hindexed, hnodes, -⟩ := addRecentDevice_indexed h hd hid
      refine ⟨recent, hadd, hindexed, ?_⟩
      rw [hnodes, List.map_cons, map_filter_nodes, moveToFront]
  | remove id =>
      obtain ⟨recent, hremove, hindexed, hnodes, -⟩ := removeRecentDevice_indexed h id
      refine ⟨recent, congrArg some hremove, hindexed, ?_⟩
      rw [hnodes, map_filter_nodes, moveToFront]

theorem runs_touchRecent (h : r.recent.Indexed r.idOf) (calls : List (Touch DeviceID DeviceID))
    (hlive : ∀ device, .add device ∈ calls → (r.heap device).isSome = true) :
    ∃ recent, runs touchRecent calls r = some { r with recent } ∧ recent.Indexed r.idOf ∧
      recent.nodes.map Prod.snd = calls.foldl (moveToFront r.idOf) (r.recent.nodes.map Prod.snd) := by
  induction calls generalizing r with
  | nil => exact ⟨r.recent, rfl, h, rfl⟩
  | cons call calls ih =>
      obtain ⟨recent, htouch, hindexed, hnodes⟩ :=
        touchRecent_spec h call fun device heq => hlive device (heq ▸ List.mem_cons_self)
      obtain ⟨last, hruns, hlast, hdevices⟩ :=
        @ih { r with recent } hindexed fun device hin => hlive device (List.mem_cons_of_mem _ hin)
      refine ⟨last, ?_, hlast, ?_⟩
      · rw [runs, htouch, Option.bind_some, hruns]
      · rw [List.foldl_cons, ← hnodes]
        exact hdevices

theorem withoutRecent_indexed (r : EbNRadio P D) : r.withoutRecent.recent.Indexed r.withoutRecent.idOf where
  index id node := by simp [withoutRecent]
  nodup := List.nodup_nil
  below _ hentry := by cases hentry

end EbNRadio

end Sddr.Radio
