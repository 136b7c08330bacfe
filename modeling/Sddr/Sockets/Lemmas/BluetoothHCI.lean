import Sddr.Sockets.BluetoothHCI

/-!
# The loop of a transfer

While every round moves something, the position is what has been let through, up to the size.
-/

namespace Sddr.Sockets.BluetoothHCI
open Sddr.Lib

variable {σ : Type} {mover : Mover σ} {size : Nat} {timeout startTime : BitVec 64} {rounds : Nat → Round}

theorem offered_succ (rounds : Nat → Round) (n : Nat) :
    offered rounds (n + 1) = offered rounds n + (rounds n).offer.amount := by
  simp [offered, List.range_succ]

theorem offered_mono (rounds : Nat → Round) {m n : Nat} (h : m ≤ n) : offered rounds m ≤ offered rounds n := by
  induction n, h using Nat.le_induction with
  | base => exact Nat.le_refl _
  | succ n _ ih => exact ih.trans (offered_succ rounds n ▸ Nat.le_add_right _ _)

/-- Where the loop ends, with what it moved from position `pos` on. -/
structure Ends (mover : Mover σ) (size : Nat) (pos : Nat) (moved : σ) (r : Result σ) : Prop where
  pos_le : pos ≤ r.pos
  le_size : r.pos ≤ size
  moved_eq : r.moved = mover.move moved pos (r.pos - pos)

theorem ends_refl {pos : Nat} (hpos : pos ≤ size) (success : Bool) (moved : σ) :
    Ends mover size pos moved ⟨success, pos, moved⟩ where
  pos_le := Nat.le_refl pos
  le_size := hpos
  moved_eq := by rw [Nat.sub_self, mover.move_zero]

theorem transfer_ends {n pos : Nat} (hpos : pos ≤ size) (moved : σ) :
    Ends mover size pos moved (transfer mover size timeout startTime rounds n pos moved) := by
  fun_induction transfer mover size timeout startTime rounds n pos moved with
  | case1 n pos moved hmore hpoll => exact ends_refl hpos _ _
  | case2 n pos moved hmore hpoll numMoved hnone => exact ends_refl hpos _ _
  | case3 n pos moved hmore hpoll numMoved hsome ih =>
      have hcount : numMoved.toNat ≤ size - pos := by
        rw [Offer.toNat_result]
        exact Nat.min_le_right _ _
      have h := ih (by omega)
      have hle := h.pos_le
      refine ⟨by omega, h.le_size, ?_⟩
      rw [h.moved_eq, mover.move_move]
      congr 1
      omega
  | case4 n pos moved hdone => exact ends_refl hpos _ _

/-- Time that runs out does so in a later round. -/
theorem le_of_late {n m : Nat} (hbefore : ∀ k < n, Moves timeout startTime rounds k)
    (hlate : remainingTime timeout startTime (rounds m).time < 0) : n ≤ m := by
  by_contra hlt
  exact absurd (hbefore m (Nat.not_le.mp hlt)).inTime (Int.not_le.mpr hlate)

/-- A round in time that moves nothing ends the loop before time can run out. -/
theorem not_runsOut_of_stuck {n : Nat} (hbefore : ∀ k < n, Moves timeout startTime rounds k)
    (hinTime : 0 ≤ remainingTime timeout startTime (rounds n).time) (hstuck : ¬ Moves timeout startTime rounds n) :
    ¬ RunsOut size timeout startTime rounds := by
  rintro ⟨m, hmoves, hlate, -⟩
  rcases Nat.lt_or_eq_of_le (le_of_late hbefore hlate) with hlt | rfl
  · exact hstuck (hmoves n hlt)
  · exact absurd hinTime (Int.not_le.mpr hlate)

theorem not_runsOut_of_offered {n : Nat} (hbefore : ∀ k < n, Moves timeout startTime rounds k)
    (hall : size ≤ offered rounds n) : ¬ RunsOut size timeout startTime rounds := by
  rintro ⟨m, -, hlate, hleft⟩
  have hmono := offered_mono rounds (le_of_late hbefore hlate)
  omega

/-- The loop ends with bytes left and no failure if and only if it runs out of time. -/
theorem transfer_short_iff {n pos : Nat} (hbefore : ∀ k < n, Moves timeout startTime rounds k)
    (hpos : pos = min (offered rounds n) size) (moved : σ) :
    (transfer mover size timeout startTime rounds n pos moved).success = true ∧
        (transfer mover size timeout startTime rounds n pos moved).pos < size ↔
      RunsOut size timeout startTime rounds := by
  fun_induction transfer mover size timeout startTime rounds n pos moved with
  | case1 n pos moved hmore hpoll =>
      refine iff_of_false (fun h => Bool.false_ne_true h.1) (not_runsOut_of_stuck hbefore hmore.2 fun h => ?_)
      exact absurd h.ready (Int.not_lt.mpr hpoll)
  | case2 n pos moved hmore hpoll numMoved hnone =>
      refine iff_of_false (fun h => Bool.false_ne_true h.1) (not_runsOut_of_stuck hbefore hmore.2 fun h => ?_)
      have hresult : 0 < numMoved := (Offer.result_pos (Nat.sub_pos_of_lt hmore.1)).mpr h.amount
      exact absurd hresult (Int.not_lt.mpr hnone)
  | case3 n pos moved hmore hpoll numMoved hsome ih =>
      have hcount : numMoved.toNat = min (rounds n).offer.amount (size - pos) := Offer.toNat_result _ _
      refine ih (fun k hk => ?_) ?_
      · rcases Nat.lt_or_eq_of_le (Nat.le_of_lt_succ hk) with hlt | rfl
        · exact hbefore k hlt
        · exact ⟨hmore.2, Int.not_le.mp hpoll, (Offer.result_pos (Nat.sub_pos_of_lt hmore.1)).mp (Int.not_le.mp hsome)⟩
      · rw [offered_succ]
        omega
  | case4 n pos moved hdone =>
      rw [and_iff_right rfl]
      by_cases hleft : pos < size
      · have hlate : remainingTime timeout startTime (rounds n).time < 0 := Int.not_le.mp fun h => hdone ⟨hleft, h⟩
        exact iff_of_true hleft ⟨n, hbefore, hlate, by omega⟩
      · exact iff_of_false hleft (not_runsOut_of_offered hbefore (by omega))

/-- A transfer succeeds only with all bytes moved if and only if it does not run out of time. -/
theorem transfer_full_iff (moved : σ) :
    let r := transfer mover size timeout startTime rounds 0 0 moved
    (r.success = true → r.pos = size ∧ r.moved = mover.move moved 0 size) ↔ ¬ RunsOut size timeout startTime rounds := by
  intro r
  have hends : Ends mover size 0 moved r := transfer_ends (Nat.zero_le size) moved
  have hshort : r.success = true ∧ r.pos < size ↔ RunsOut size timeout startTime rounds :=
    transfer_short_iff (fun k hk => absurd hk (Nat.not_lt_zero k)) (Nat.zero_min size).symm moved
  rw [← hshort]
  constructor
  · rintro h ⟨hsuccess, hlt⟩
    exact Nat.ne_of_lt hlt (h hsuccess).1
  · intro h hsuccess
    have hpos : r.pos = size := Nat.le_antisymm hends.le_size (Nat.not_lt.mp fun hlt => h ⟨hsuccess, hlt⟩)
    refine ⟨hpos, ?_⟩
    rw [hends.moved_eq, Nat.sub_zero]
    exact congrArg _ hpos

end Sddr.Sockets.BluetoothHCI
