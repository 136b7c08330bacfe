import Mathlib.Algebra.Order.Field.Rat
import Mathlib.Algebra.Order.GroupWithZero.Basic
import Mathlib.Tactic.NormNum
import Sddr.Codec.Bloom

/-!
# Exact arithmetic

Rates that stand for numbers. `LogRate` computes without rounding.
-/

namespace Sddr.Codec

variable {P K : Type} [FloatOps P]

/-- `val` is the number a rate stands for, and rates are compared as their numbers are. -/
structure FloatOps.Ordered [LinearOrder K] (val : P → K) : Prop where
  le_iff : ∀ a b, FloatOps.le a b = true ↔ val a ≤ val b
  lt_iff : ∀ a b, FloatOps.lt a b = true ↔ val a < val b

/-- And products are exact. -/
structure FloatOps.Exact [LinearOrder K] [Monoid K] (val : P → K) : Prop extends FloatOps.Ordered val where
  one : val FloatOps.one = 1
  mul : ∀ a b, val (FloatOps.mul a b) = val a * val b

/-- The number `2 ^ -n`, or 0. -/
def LogRate.val : LogRate → ℚ
  | none => 0
  | some n => (1 / 2) ^ n

theorem LogRate.val_pos (n : Nat) : 0 < LogRate.val (some n) := pow_pos (by norm_num) n

theorem LogRate.exact : FloatOps.Exact LogRate.val where
  le_iff a b := by
    cases a with
    | none => cases b with
      | none => exact iff_of_true rfl (le_refl _)
      | some n => exact iff_of_true rfl (val_pos n).le
    | some m => cases b with
      | none => exact iff_of_false Bool.false_ne_true (not_le_of_gt (val_pos m))
      | some n =>
          exact decide_eq_true_iff.trans (pow_le_pow_iff_right_of_lt_one₀ (by norm_num) (by norm_num)).symm
  lt_iff a b := by
    cases b with
    | none => cases a with
      | none => exact iff_of_false Bool.false_ne_true (lt_irrefl _)
      | some m => exact iff_of_false Bool.false_ne_true (not_lt_of_gt (val_pos m))
    | some n => cases a with
      | none => exact iff_of_true rfl (val_pos n)
      | some m =>
          exact decide_eq_true_iff.trans (pow_lt_pow_iff_right_of_lt_one₀ (by norm_num) (by norm_num)).symm
  one := pow_zero _
  mul a b := by
    cases a with
    | none => exact (zero_mul _).symm
    | some m => cases b with
      | none => exact (mul_zero _).symm
      | some n => exact pow_add _ m n

end Sddr.Codec
