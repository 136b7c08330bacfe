import Mathlib.Algebra.BigOperators.Group.List.Basic
import Mathlib.Algebra.Ring.Nat
import Mathlib.Data.Nat.Find

/-!
# Segments of an array

Segments of given sizes, one behind the other.
-/

namespace Sddr.Lib

variable (sizes : List Nat)

/-- Where segment `s` starts. -/
def segmentStart (s : Nat) : Nat := (sizes.take s).sum

/-- Position `j` belongs to segment `s`. -/
def InSegment (s j : Nat) : Prop := segmentStart sizes s ≤ j ∧ j < segmentStart sizes (s + 1)

instance (s j : Nat) : Decidable (InSegment sizes s j) := inferInstanceAs (Decidable (_ ∧ _))

variable {sizes}

theorem segmentStart_succ {s : Nat} (hs : s < sizes.length) :
    segmentStart sizes (s + 1) = segmentStart sizes s + sizes[s] := by
  rw [segmentStart, List.take_succ_eq_append_getElem hs, List.sum_append, List.sum_singleton, segmentStart]

theorem segmentStart_length (sizes : List Nat) : segmentStart sizes sizes.length = sizes.sum := by
  rw [segmentStart, List.take_length]

theorem segmentStart_mono {s t : Nat} (h : s ≤ t) : segmentStart sizes s ≤ segmentStart sizes t := by
  obtain ⟨n, rfl⟩ := Nat.exists_eq_add_of_le h
  rw [segmentStart, segmentStart, List.take_add, List.sum_append]
  exact Nat.le_add_right _ _

theorem InSegment.lt_sum {s j : Nat} (h : InSegment sizes s j) (hs : s < sizes.length) : j < sizes.sum :=
  Nat.lt_of_lt_of_le h.2 (segmentStart_length sizes ▸ segmentStart_mono hs)

/-- Segments do not overlap. -/
theorem InSegment.unique {s t j : Nat} (hs : InSegment sizes s j) (ht : InSegment sizes t j) : s = t := by
  rcases Nat.lt_trichotomy s t with hlt | rfl | hlt
  · exact absurd ht.1 (Nat.not_le.mpr (Nat.lt_of_lt_of_le hs.2 (segmentStart_mono hlt)))
  · rfl
  · exact absurd hs.1 (Nat.not_le.mpr (Nat.lt_of_lt_of_le ht.2 (segmentStart_mono hlt)))

/-- Every position is in one of the segments. -/
theorem exists_inSegment {j : Nat} (hj : j < sizes.sum) : ∃ s, s < sizes.length ∧ InSegment sizes s j := by
  have hend : ∃ s, j < segmentStart sizes s := ⟨sizes.length, segmentStart_length sizes ▸ hj⟩
  have hlast := Nat.find_spec hend
  have hpos : Nat.find hend ≠ 0 := fun h => by
    rw [h] at hlast
    exact absurd hlast (Nat.not_lt_zero j)
  obtain ⟨s, hs⟩ := Nat.exists_eq_succ_of_ne_zero hpos
  have hbefore : ¬ j < segmentStart sizes s := Nat.find_min hend (hs ▸ Nat.lt_succ_self s)
  rw [hs] at hlast
  refine ⟨s, ?_, Nat.not_lt.mp hbefore, hlast⟩
  have hle : Nat.find hend ≤ sizes.length := Nat.find_min' hend (segmentStart_length sizes ▸ hj)
  omega

end Sddr.Lib
