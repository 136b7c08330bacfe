import Sddr.Radio.Lemmas.Identity

/-! # Main results about the device map -/

namespace Sddr.Radio
open Sddr.Lib Sddr.Codec Sddr.Device

/-- Every run of lookups, additions, removals and clearings goes through, and leaves the two indexes mutually
inverse. -/
theorem EbNDeviceMap.indexes_inverse {D : Type} [Addressed D] [LawfulAddressed D] (digest : List Byte → Nat)
    (heap : DeviceID → Option D) (ops : List (MapOp D)) (h : MapOp.AllLegal digest (Devices.new heap) ops) :
    ∃ s, MapOp.run digest (Devices.new heap) ops = some s ∧ s.Consistent ∧ s.Distinct := by
  obtain ⟨s, hrun, hs⟩ := MapOp.run_consistent (Devices.new_consistent heap) h
  exact ⟨s, hrun, hs, hs.distinct⟩

/-- A device that is added, found under a shifted address and removed by id. -/
theorem EbNDeviceMap.indexes_inverse_shifted :
    let buckets : Buckets := ⟨7, id, fun _ => List.Perm.rfl⟩
    let ops : List (MapOp (EbNDevice LogRate)) := [.getAddress [1, 2, 3, 4] buckets,
      .add [1, 2, 3, 4] 0 (EbNDevice.new 9 [1, 2, 3, 4] []), .getAddress [5, 6, 1, 2] buckets, .removeID 9]
    ∃ s, MapOp.run List.length (Devices.new fun _ => none) ops = some s ∧ s.Consistent ∧ s.Distinct := by
  intro buckets ops
  refine EbNDeviceMap.indexes_inverse List.length (fun _ => none) ops ⟨trivial, fun s hs => ?_⟩
  cases hs
  exact ⟨⟨⟨buckets, rfl⟩, rfl, AList.notMem_empty _, rfl⟩, fun s _ => ⟨trivial, fun _ _ => ⟨trivial, fun _ _ => trivial⟩⟩⟩

/-- Senders that shift their addresses keep their devices, and no two of them share one. -/
theorem EbNDeviceMap.keeps_identity {S D : Type} [DecidableEq S] [Addressed D] (digest : List Byte → Nat) (half : Nat)
    (a : S → Nat → Address) (heap : DeviceID → Option D) (events : List (AddressSighting S D))
    (ha : ∀ sender, ShiftSequence (2 * half) (a sender)) (h : (Sighted.start heap).AllInOrder digest a events) :
    ∃ t, (Sighted.start heap).run digest a events = some t ∧
      t.seen.map (fun x => (x.1, x.2.1)) = (events.map fun e => (e.sender, e.index)).reverse ∧
      ∀ x ∈ t.seen, ∀ y ∈ t.seen, x.2.2 = y.2.2 ↔ x.1 = y.1 := by
  obtain ⟨t, hrun, hfollows⟩ := Sighted.run_follows (Sighted.follows_start heap) ha h
  exact ⟨t, hrun, (Sighted.run_seen hrun).trans (List.append_nil _), fun x hx y hy => hfollows.device_eq_iff hx hy⟩

/-- Two senders, of which the first one shifts its address. -/
theorem EbNDeviceMap.keeps_identity_two :
    let a : Bool → Nat → Address := fun sender n =>
      Nat.rec (if sender then [1, 2, 3, 4] else [5, 6, 7, 8])
        (fun n address => address.shiftWithPartial 0 0 fun _ => BitVec.ofNat 8 (16 * n)) n
    let events : List (AddressSighting Bool (EbNDevice LogRate)) :=
      [⟨true, 0, ⟨7, id, fun _ => List.Perm.rfl⟩, 0, EbNDevice.new 0 [1, 2, 3, 4] []⟩,
        ⟨false, 0, ⟨7, id, fun _ => List.Perm.rfl⟩, 1, EbNDevice.new 1 [5, 6, 7, 8] []⟩,
        ⟨true, 1, ⟨7, id, fun _ => List.Perm.rfl⟩, 2, EbNDevice.new 2 [] []⟩]
    ∃ t, (Sighted.start fun _ => none).run List.length a events = some t ∧
      t.seen.map (fun x => (x.1, x.2.1)) = (events.map fun e => (e.sender, e.index)).reverse ∧
      ∀ x ∈ t.seen, ∀ y ∈ t.seen, x.2.2 = y.2.2 ↔ x.1 = y.1 := by
  intro a events
  refine EbNDeviceMap.keeps_identity List.length 2 a (fun _ => none) events (fun sender => ⟨?_, fun n => ?_⟩) ?_
  · cases sender <;> rfl
  · exact ⟨0, 0, fun _ => BitVec.ofNat 8 (16 * n), rfl⟩
  · decide

end Sddr.Radio
