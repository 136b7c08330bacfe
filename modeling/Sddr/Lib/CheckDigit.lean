import Mathlib.Algebra.BigOperators.Group.List.Basic

/-!
# Check digits

Words over a group whose last digit is the sum of the others.
-/

namespace Sddr.Lib

variable {G : Type} [AddCommGroup G] {word : List G}

def CheckDigit (word : List G) : Prop := word.getLastD 0 = word.dropLast.sum

theorem checkDigit_concat {digits : List G} {c : G} : CheckDigit (digits ++ [c]) ↔ c = digits.sum := by
  simp [CheckDigit]

theorem sum_set_ne {digits : List G} {k : Nat} (hk : k < digits.length) {d : G} (hd : d ≠ digits[k]) :
    (digits.set k d).sum ≠ digits.sum := by
  rw [List.sum_set', dif_pos hk]
  intro heq
  have hzero : -digits[k] + d = 0 := add_eq_left.mp heq
  exact hd (neg_add_eq_zero.mp hzero).symm

/-- No single digit of a word can be changed. -/
theorem CheckDigit.not_set (h : CheckDigit word) {k : Nat} (hk : k < word.length) {d : G} (hd : d ≠ word[k]) :
    ¬ CheckDigit (word.set k d) := by
  obtain rfl | ⟨digits, c, rfl⟩ := word.eq_nil_or_concat'
  · cases hk
  rw [checkDigit_concat] at h
  rw [List.set_append]
  split
  next hlt =>
    rw [checkDigit_concat, h]
    rw [List.getElem_append_left hlt] at hd
    exact (sum_set_ne hlt hd).symm
  next hlast =>
    have hlength : k = digits.length := by
      rw [List.length_append, List.length_singleton] at hk
      omega
    subst hlength
    rw [Nat.sub_self, List.set_cons_zero, checkDigit_concat, ← h]
    rwa [List.getElem_concat_length rfl] at hd

end Sddr.Lib
