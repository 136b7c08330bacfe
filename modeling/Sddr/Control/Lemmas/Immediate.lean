import Sddr.Control.Immediate
import Sddr.Control.Lemmas.History

/-!
# The Immediate scheme

`Immediate` shares a bit with `ImmediateNoMem`, so `discovered` takes the branch without memory.
-/

namespace Sddr.Control
open Sddr.Lib Sddr.Device

variable {p : EbNHystPolicy} {reported : Reported}

theorem discovered_immediate (hscheme : p.scheme = .Immediate) (events : List DiscoverEvent)
    (newlyDiscovered : List (DeviceID × Time)) (time : Time) :
    (p.discovered events newlyDiscovered time).policy = p ∧
      (∀ id, id ∈ (p.discovered events newlyDiscovered time).toHandshake ↔ id ∈ events.map DiscoverEvent.id) ∧
      (p.discovered events newlyDiscovered time).newlyDiscovered
        = newlyDiscovered ++ events.map fun e => (e.id, time) := by
  have hmask : p.scheme.toNat &&& Scheme.ImmediateNoMem.toNat ≠ 0 := by
    rw [hscheme]
    decide
  unfold EbNHystPolicy.discovered
  induction events using List.reverseRecOn with
  | nil => simp
  | append_singleton events e ih =>
      obtain ⟨hpolicy, hhandshake, hnewly⟩ := ih
      rw [List.foldl_append, List.foldl_cons, List.foldl_nil, EbNHystPolicy.discover, hpolicy]
      dsimp only
      rw [if_neg hmask]
      refine ⟨rfl, fun id => ?_, ?_⟩
      · rw [Finset.mem_insert, hhandshake]
        simp [or_comm]
      · simp [hnewly]

theorem appended_immediate (hscheme : p.scheme = .Immediate) (events : List DiscoverEvent)
    (newlyDiscovered : List (DeviceID × Time)) (time : Time) :
    p.appended events newlyDiscovered time = events.map DiscoverEvent.id := by
  unfold EbNHystPolicy.appended
  rw [(discovered_immediate hscheme events newlyDiscovered time).2.2]
  simp

theorem scheme_step (p : EbNHystPolicy) (call : TimedCall) (hscheme : p.scheme = .Immediate) :
    (p.step call).scheme = .Immediate := by
  obtain ⟨call, time⟩ := call
  cases call with
  | discovered events newlyDiscovered =>
      change (p.discovered events newlyDiscovered time).policy.scheme = _
      rw [(discovered_immediate hscheme events newlyDiscovered time).1]
      exact hscheme
  | encountered devices =>
      exact (foldl_encounter time _ (devices.sort_nodup (· ≤ ·)) p).1.trans hscheme
  | checkExpired => exact hscheme

theorem remembers_iff (hscheme : p.scheme = .Immediate) (call : TimedCall) :
    Remembers p reported call ↔ Fresh p reported call := by
  obtain ⟨call, time⟩ := call
  cases call with
  | discovered events newlyDiscovered =>
      obtain ⟨_, hhandshake, _⟩ := discovered_immediate hscheme events newlyDiscovered time
      simp only [Remembers, Fresh, appended_immediate hscheme, hhandshake]
      constructor
      · rintro ⟨_, hnodup, hnew⟩
        exact ⟨hnodup, fun e he => hnew e.id (List.mem_map_of_mem he)⟩
      · rintro ⟨hnodup, hnew⟩
        refine ⟨fun e he => List.mem_map_of_mem he, hnodup, fun id hid => ?_⟩
        obtain ⟨e, he, rfl⟩ := List.mem_map.mp hid
        exact hnew e he
  | encountered devices => exact Iff.rfl
  | checkExpired =>
      simp only [Remembers, Fresh, mem_expired]

theorem everyCall_remembers_iff (hscheme : p.scheme = .Immediate) (calls : List TimedCall) :
    EveryCall Remembers p reported calls ↔ EveryCall Fresh p reported calls := by
  induction calls generalizing p reported with
  | nil => exact Iff.rfl
  | cons call calls ih => exact and_congr (remembers_iff hscheme call) (ih (scheme_step p call hscheme))

end Sddr.Control
