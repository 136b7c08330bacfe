import Sddr.Control.Lemmas.Expiry
import Sddr.Control.Lemmas.Immediate

/-! # Main results about the hysteresis policy -/

namespace Sddr.Control
open Sddr.Lib Sddr.Device

/-- Whatever was called before, `discovered` and `checkExpired` answer by what was observed of each id since it is
tracked. -/
theorem EbNHystPolicy.standard_refines (minStartTime maxStartTime : Time) (startSeen : Nat) (endTime : Time)
    (rssiThreshold : BitVec 8) (calls : List TimedCall) (time : Time)
    (hclock : (calls.map Prod.snd ++ [time]).Pairwise (· ≤ ·)) :
    let p₀ := EbNHystPolicy.new .Standard minStartTime maxStartTime startSeen endTime rssiThreshold
    let p := calls.foldl EbNHystPolicy.step p₀
    let h := calls.foldl (History.step p₀.limits) fun _ => []
    let expired := p.checkExpired time
    (∀ id, id ∈ p.deviceInfo ↔ h id ≠ []) ∧
      (∀ events newlyDiscovered,
        (∀ id, id ∈ (p.discovered events newlyDiscovered time).toHandshake ↔ id ∈ events.map DiscoverEvent.id ∧
          Qualifies p₀.limits (h.step p₀.limits (.discovered events newlyDiscovered, time) id)) ∧
        ∃ added, (p.discovered events newlyDiscovered time).newlyDiscovered = newlyDiscovered ++ added ∧
          (added.map Prod.fst).Nodup ∧
          ∀ id t, (id, t) ∈ added ↔ id ∈ events.map DiscoverEvent.id ∧ h id = [] ∧ t = time) ∧
      (expired.1.map Prod.fst).Nodup ∧
      (∀ id last, (id, last) ∈ expired.1 ↔
        Overdue p₀.limits time.toNat (h id) ∧ last.toNat = lastSighting (h id)) ∧
      ∀ id, expired.2.deviceInfo.lookup id
        = if id ∈ expired.1.map Prod.fst then none else p.deviceInfo.lookup id := by
  intro p₀ p h expired
  have hstart : Refines p₀.limits p₀ (fun _ => []) 0 :=
    ⟨rfl, rfl, fun _ => .untracked, fun _ o ho => by cases ho⟩
  obtain ⟨hsorted, _, hlast⟩ := List.pairwise_append.mp hclock
  have hlater : ∀ t ∈ 0 :: calls.map Prod.snd, t ≤ time := by
    intro t ht
    rcases List.mem_cons.mp ht with rfl | ht
    · exact Nat.zero_le _
    · exact hlast t ht time (List.mem_singleton_self time)
  obtain ⟨now, hnow, hrefines⟩ := run_refines calls hstart
    (List.pairwise_cons.mpr ⟨fun t _ => Nat.zero_le t.toNat, hsorted⟩) hlater
  refine ⟨fun id => ?_, fun events newlyDiscovered => ?_, nodup_checkExpired p time, mem_checkExpired hrefines hnow,
    lookup_checkExpired p time⟩
  · rw [← not_iff_not, not_not, (hrefines.entry id).eq_nil, AList.lookup_eq_none]
  · obtain ⟨_, hhandshake, hnewly⟩ := discovered_inBatch hrefines hnow events newlyDiscovered
    exact ⟨hhandshake, hnewly⟩

/-- A device that is discovered twice, a second one that is encountered only, and a question at 40 s. -/
theorem EbNHystPolicy.standard_refines_two :
    let calls : List TimedCall := [(.discovered [⟨0, 1, 200⟩] [], 0), (.encountered {2}, 5000),
      (.discovered [⟨30000, 1, 0⟩, ⟨30000, 3, 0⟩] [], 30000), (.checkExpired, 35000)]
    let p₀ := EbNHystPolicy.new .Standard 20000 60000 1 10000 200
    let p := calls.foldl EbNHystPolicy.step p₀
    let h := calls.foldl (History.step p₀.limits) fun _ => []
    let expired := p.checkExpired 40000
    (∀ id, id ∈ p.deviceInfo ↔ h id ≠ []) ∧
      (∀ events newlyDiscovered,
        (∀ id, id ∈ (p.discovered events newlyDiscovered 40000).toHandshake ↔ id ∈ events.map DiscoverEvent.id ∧
          Qualifies p₀.limits (h.step p₀.limits (.discovered events newlyDiscovered, 40000) id)) ∧
        ∃ added, (p.discovered events newlyDiscovered 40000).newlyDiscovered = newlyDiscovered ++ added ∧
          (added.map Prod.fst).Nodup ∧
          ∀ id t, (id, t) ∈ added ↔ id ∈ events.map DiscoverEvent.id ∧ h id = [] ∧ t = 40000) ∧
      (expired.1.map Prod.fst).Nodup ∧
      (∀ id last, (id, last) ∈ expired.1 ↔
        Overdue p₀.limits (40000 : Time).toNat (h id) ∧ last.toNat = lastSighting (h id)) ∧
      ∀ id, expired.2.deviceInfo.lookup id
        = if id ∈ expired.1.map Prod.fst then none else p.deviceInfo.lookup id :=
  EbNHystPolicy.standard_refines 20000 60000 1 10000 200 [(.discovered [⟨0, 1, 200⟩] [], 0), (.encountered {2}, 5000),
    (.discovered [⟨30000, 1, 0⟩, ⟨30000, 3, 0⟩] [], 30000), (.checkExpired, 35000)] 40000 (by decide)

/-- With `Immediate` nothing is tracked by `discovered`, so ids are reported once and expire in just those runs in which
they are sighted once and encountered in time. -/
theorem EbNHystPolicy.immediate_remembers_iff (minStartTime maxStartTime : Time) (startSeen : Nat) (endTime : Time)
    (rssiThreshold : BitVec 8) (calls : List TimedCall) :
    let p₀ := EbNHystPolicy.new .Immediate minStartTime maxStartTime startSeen endTime rssiThreshold
    EveryCall Remembers p₀ (fun _ => none) calls ↔ EveryCall Fresh p₀ (fun _ => none) calls :=
  everyCall_remembers_iff rfl calls

/-- A device that is seen twice is reported twice, and one that is silent for 100 s does not expire. -/
theorem EbNHystPolicy.immediate_forgets :
    let p₀ := EbNHystPolicy.new .Immediate 0 20000 1 20000 200
    ∀ calls ∈ ([[(.discovered [⟨0, 7, 0⟩] [], 0), (.discovered [⟨1000, 7, 0⟩] [], 1000)],
        [(.discovered [⟨0, 7, 0⟩] [], 0), (.checkExpired, 100000)]] : List (List TimedCall)),
      (calls.map Prod.snd).Pairwise (· ≤ ·) ∧ ¬ EveryCall Remembers p₀ (fun _ => none) calls := by
  intro p₀
  simp only [List.forall_mem_cons]
  refine ⟨⟨by decide, fun h => ?_⟩, ⟨by decide, fun h => ?_⟩, fun calls hcalls => by cases hcalls⟩
  · have hnew := (h.2.1.2.2 7 (by decide)).1
    exact absurd hnew (by decide)
  · have hexpired := h.2.1 7 0 (by decide) (by decide)
    exact absurd hexpired (by decide)

/-- In a run, with any readings of the clock, what expires is overdue at every call of `checkExpired` if and only if at
each of them no tracked id was last seen after the reading, save for steps back of almost `2 ^ 64`. -/
theorem EbNHystPolicy.expiresInTime_along_iff (scheme : Scheme) (minStartTime maxStartTime : Time) (startSeen : Nat)
    (endTime : Time) (rssiThreshold : BitVec 8) (calls : List TimedCall) :
    let p₀ := EbNHystPolicy.new scheme minStartTime maxStartTime startSeen endTime rssiThreshold
    Along EbNHystPolicy.accept EbNHystPolicy.ExpiresInTime calls p₀ ↔
      Along EbNHystPolicy.accept EbNHystPolicy.ReadsForward calls p₀ :=
  along_congr EbNHystPolicy.expiresInTime_iff

/-- The clock is set back by one millisecond after a device was discovered, or after its encounter started. -/
theorem EbNHystPolicy.expires_setBack :
    let p₀ := EbNHystPolicy.new .Standard 20000 60000 1 10000 200
    ∀ calls ∈ ([[(.discovered [⟨1000, 7, 0⟩] [], 1000), (.checkExpired, 999)],
        [(.discovered [⟨1000, 7, 0⟩] [], 1000), (.discovered [⟨21000, 7, 0⟩] [], 21000),
          (.checkExpired, 20999)]] : List (List TimedCall)),
      ¬ Along EbNHystPolicy.accept EbNHystPolicy.ExpiresInTime calls p₀ := by
  intro p₀
  simp only [List.forall_mem_cons]
  refine ⟨fun h => ?_, fun h => ?_, fun calls hcalls => by cases hcalls⟩
  · exact EbNHystPolicy.not_expiresInTime _ 7 1000 (by decide) (by decide) (h.2 _ rfl).1
  · exact EbNHystPolicy.not_expiresInTime _ 7 21000 (by decide) (by decide) ((h.2 _ rfl).2 _ rfl).1

end Sddr.Control
