import Sddr.Sockets.Main

/-!
# The loops of the client socket

A `size_t` is never negative, so the loops never fail. Without errors they move everything.
-/

namespace Sddr.Sockets.Main
open Sddr.Lib

variable {σ : Type} {w : Nat} {mover : Mover σ} {size : BitVec w}

theorem FailsBefore.mono {fails fails' : Offer → Prop} {n : Nat} {offers : List Offer} (h : FailsBefore fails n offers)
    (himp : ∀ offer, fails offer → fails' offer) : FailsBefore fails' n offers := by
  obtain ⟨before, offer, after, heq, hfails, hlt⟩ := h
  exact ⟨before, offer, after, heq, himp offer hfails, hlt⟩

/-! ## transferAll -/

/-- `numMoved < 0` does not hold of any `size_t`. -/
theorem transferAll_cons {offer : Offer} {offers : List Offer} {pos : BitVec w} {moved : σ} (hmore : pos < size) :
    transferAll mover size (offer :: offers) pos moved
      = transferAll mover size offers (pos + BitVec.ofInt w (offer.result (size - pos).toNat))
          (mover.move moved pos.toNat (offer.result (size - pos).toNat).toNat) := by
  rw [transferAll, if_pos hmore]
  exact if_neg BitVec.not_lt_zero

theorem transferAll_success (offers : List Offer) (pos : BitVec w) (moved : σ) {t : Transferred σ}
    (h : transferAll mover size offers pos moved = some t) : t.success = true := by
  induction offers generalizing pos moved with
  | nil =>
      rw [transferAll] at h
      split_ifs at h
      cases h
      rfl
  | cons offer offers ih =>
      by_cases hmore : pos < size
      · rw [transferAll_cons hmore] at h
        exact ih _ _ h
      · rw [transferAll, if_neg hmore] at h
        cases h
        rfl

theorem toNat_sub_of_lt {pos : BitVec w} (hmore : pos < size) : (size - pos).toNat = size.toNat - pos.toNat :=
  BitVec.toNat_sub_of_le (BitVec.le_of_lt hmore)

/-- Without an error the position does not wrap around. -/
theorem toNat_add_result {pos : BitVec w} {offer : Offer} (hmore : pos < size) (hoffer : offer ≠ .error) :
    (pos + BitVec.ofInt w (offer.result (size - pos).toNat)).toNat
      = pos.toNat + min offer.amount (size.toNat - pos.toNat) := by
  have hlt : pos.toNat < size.toNat := hmore
  have hsize := size.isLt
  cases offer with
  | bytes n =>
      rw [Offer.result, Offer.amount, toNat_sub_of_lt hmore, BitVec.ofInt_natCast, BitVec.toNat_add, BitVec.toNat_ofNat,
        Nat.add_mod_mod]
      exact Nat.mod_eq_of_lt (by omega)
  | error => exact absurd rfl hoffer

/-- Without errors everything that is left is moved. -/
theorem transferAll_moved (offers : List Offer) {pos : BitVec w} (hpos : pos ≤ size) (moved : σ)
    (herrors : ¬ FailsBefore (· = .error) (size.toNat - pos.toNat) offers) {t : Transferred σ}
    (h : transferAll mover size offers pos moved = some t) :
    t.moved = mover.move moved pos.toNat (size.toNat - pos.toNat) := by
  have hdone : ∀ {pos : BitVec w}, pos ≤ size → ¬ pos < size → size.toNat - pos.toNat = 0 := fun hle hnot =>
    Nat.sub_eq_zero_of_le (Nat.not_lt.mp hnot)
  induction offers generalizing pos moved with
  | nil =>
      rw [transferAll] at h
      split_ifs at h with hmore
      cases h
      rw [hdone hpos hmore, mover.move_zero]
  | cons offer offers ih =>
      by_cases hmore : pos < size
      · have hlt : pos.toNat < size.toNat := hmore
        rw [failsBefore_cons, not_or] at herrors
        have hoffer : offer ≠ .error := fun heq => herrors.1 ⟨heq, Nat.sub_pos_of_lt hlt⟩
        have hnext := toNat_add_result hmore hoffer
        rw [transferAll_cons hmore] at h
        have hmoved := ih (BitVec.le_def.mpr (by omega)) _ ?_ h
        · rw [hmoved, hnext, Offer.toNat_result, toNat_sub_of_lt hmore, mover.move_move]
          congr 1
          omega
        · have hleft : size.toNat - (pos.toNat + min offer.amount (size.toNat - pos.toNat))
              = size.toNat - pos.toNat - offer.amount := by omega
          rw [hnext, hleft]
          exact herrors.2
      · rw [transferAll, if_neg hmore] at h
        cases h
        rw [hdone hpos hmore, mover.move_zero]

/-- A transfer is right if and only if nothing that counts as a failure comes before its end. -/
theorem fullOrFails_iff (fails : Offer → Prop) (herror : fails .error) (offers : List Offer) (moved : σ) :
    FullOrFails size fails offers (mover.move moved 0 size.toNat) (transferAll mover size offers 0 moved) ↔
      ¬ FailsBefore fails size.toNat offers := by
  constructor
  · intro h hfails
    obtain ⟨t, hresult, hfalse⟩ := h.fails hfails
    rw [transferAll_success offers 0 moved hresult] at hfalse
    exact absurd hfalse Bool.noConfusion
  · intro hnot
    have herrors : ¬ FailsBefore (· = .error) size.toNat offers := fun h => hnot (h.mono fun offer heq => heq ▸ herror)
    refine ⟨fun t hresult _ => ?_, fun h => absurd h hnot⟩
    have hzero : (0 : BitVec w) ≤ size := BitVec.le_def.mpr (Nat.zero_le _)
    exact transferAll_moved offers hzero moved herrors hresult

/-! ## After the end of the stream -/

/-- What the socket lets through later is left there. -/
theorem transferAll_append (offers later : List Offer) (pos : BitVec w) (moved : σ) {t : Transferred σ}
    (h : transferAll mover size offers pos moved = some t) :
    transferAll mover size (offers ++ later) pos moved = some { t with rest := t.rest ++ later } := by
  induction offers generalizing pos moved with
  | nil =>
      rw [transferAll] at h
      split_ifs at h with hmore
      cases h
      cases later with
      | nil => rw [List.nil_append, transferAll, if_neg hmore]
      | cons offer later => rw [List.nil_append, transferAll, if_neg hmore]
  | cons offer offers ih =>
      by_cases hmore : pos < size
      · rw [transferAll_cons hmore] at h
        rw [List.cons_append, transferAll_cons hmore]
        exact ih _ _ h
      · rw [transferAll, if_neg hmore] at h
        cases h
        rw [List.cons_append, transferAll, if_neg hmore]

/-- The end of the stream looks like nothing yet. -/
theorem transferAll_eof (n : Nat) {pos : BitVec w} (hmore : pos < size) (moved : σ) :
    transferAll mover size (List.replicate n (.bytes 0)) pos moved = none := by
  induction n with
  | zero => rw [List.replicate_zero, transferAll, if_pos hmore]
  | succ n ih =>
      have hresult : Offer.result (size - pos).toNat (.bytes 0) = (0 : Nat) := by rw [Offer.result, Nat.zero_min]
      rw [List.replicate_succ, transferAll_cons hmore, hresult, BitVec.ofInt_natCast, BitVec.add_zero, Int.toNat_natCast,
        mover.move_zero, ih]

/-- A transfer that waits does so for good when the other side is gone. -/
theorem transferAll_append_eof (n : Nat) (offers : List Offer) (pos : BitVec w) (moved : σ)
    (h : transferAll mover size offers pos moved = none) :
    transferAll mover size (offers ++ List.replicate n (.bytes 0)) pos moved = none := by
  induction offers generalizing pos moved with
  | nil =>
      rw [transferAll] at h
      split_ifs at h with hmore
      exact transferAll_eof n hmore moved
  | cons offer offers ih =>
      by_cases hmore : pos < size
      · rw [transferAll_cons hmore] at h
        rw [List.cons_append, transferAll_cons hmore]
        exact ih _ _ h
      · rw [transferAll, if_neg hmore] at h
        cases h

end Sddr.Sockets.Main
