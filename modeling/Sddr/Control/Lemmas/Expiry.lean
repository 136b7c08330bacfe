import Sddr.Control.Expiry
import Sddr.Control.Lemmas.History

/-!
# Expiry when the clock is set back

A difference of two readings is their distance, or `2 ^ 64` minus it.
-/

namespace Sddr.Control
open Sddr.Lib Sddr.Device

namespace EbNHystPolicy

variable (p : EbNHystPolicy)

theorem isExpired_eq (time : Time) (info : DeviceInfo) :
    p.isExpired time info = decide (p.limit info.state < time - info.lastTime) := by
  unfold isExpired limit
  cases info.state <;> rfl

theorem mem_expiredTimes (time : Time) (id : DeviceID) (last : Time) :
    (id, last) ∈ (p.checkExpired time).1 ↔
      ∃ info, p.deviceInfo.lookup id = some info ∧ p.isExpired time info = true ∧ info.lastTime = last := by
  obtain ⟨-, hmem, -⟩ := UMap.eraseWhere_spec (p.isExpired time) p.deviceInfo
  simp [checkExpired, hmem, and_assoc]

/-- An entry that expires does so in time if and only if the reading is not before its last time. -/
theorem expired_iff (time last limit : Time) :
    (limit < time - last → last.toNat + limit.toNat < time.toNat) ↔
      last ≤ time ∨ 2 ^ 64 - (last.toNat - time.toNat) ≤ limit.toNat := by
  have hlast := last.isLt
  have htime := time.isLt
  rw [BitVec.lt_def, BitVec.le_def, BitVec.toNat_sub]
  rcases Nat.lt_or_ge time.toNat last.toNat with hback | hforward
  · rw [Nat.mod_eq_of_lt (by omega)]
    omega
  · have hdiff : 2 ^ 64 - last.toNat + time.toNat = (time.toNat - last.toNat) + 2 ^ 64 := by omega
    rw [hdiff, Nat.add_mod_right, Nat.mod_eq_of_lt (by omega)]
    omega

theorem expiresInTime_iff (call : TimedCall) : p.ExpiresInTime call ↔ p.ReadsForward call := by
  obtain ⟨call, time⟩ := call
  cases call with
  | discovered events newlyDiscovered => exact Iff.rfl
  | encountered devices => exact Iff.rfl
  | checkExpired =>
      simp only [ExpiresInTime, ReadsForward, ← expired_iff, mem_expiredTimes, isExpired_eq, decide_eq_true_eq]
      constructor
      · intro h id info hinfo hexpired
        obtain ⟨info', hinfo', -, hlimit⟩ := h id info.lastTime ⟨info, hinfo, hexpired, rfl⟩
        cases hinfo.symm.trans hinfo'
        exact hlimit
      · rintro h id last ⟨info, hinfo, hexpired, rfl⟩
        exact ⟨info, hinfo, rfl, h id info hinfo hexpired⟩

/-- An id cannot expire in time at a reading before its last time. -/
theorem not_expiresInTime {time : Time} (id : DeviceID) (last : Time) (hmem : (id, last) ∈ (p.checkExpired time).1)
    (hback : time ≤ last) : ¬ p.ExpiresInTime (.checkExpired, time) := by
  intro h
  obtain ⟨info, -, -, hlate⟩ := h id last hmem
  exact absurd (Nat.lt_of_le_of_lt (Nat.le_add_right _ _) hlate) (Nat.not_lt.mpr hback)

end EbNHystPolicy

end Sddr.Control
