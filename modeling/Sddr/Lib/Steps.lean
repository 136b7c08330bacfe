import Mathlib.Logic.Relation

/-!
# Runs of a given length

If steps from one state can always be brought together by one step each, all runs to a state without steps have the
same length, and every run can be continued to that state.
-/

namespace Sddr.Lib

inductive Steps {α : Type} (r : α → α → Prop) : Nat → α → α → Prop
  | zero {a} : Steps r 0 a a
  | succ {a b c n} : r a b → Steps r n b c → Steps r (n + 1) a c

variable {α : Type} {r : α → α → Prop} {a b c z : α} {m n N : Nat}

theorem Steps.trans (h : Steps r m a b) (h' : Steps r n b c) : Steps r (m + n) a c := by
  induction h with
  | zero => rwa [Nat.zero_add]
  | succ hstep _ ih =>
      rw [Nat.succ_add]
      exact .succ hstep (ih h')

theorem Steps.of_reflTransGen (h : Relation.ReflTransGen r a b) : ∃ n, Steps r n a b := by
  induction h using Relation.ReflTransGen.head_induction_on with
  | refl => exact ⟨0, .zero⟩
  | head hstep _ ih =>
      obtain ⟨n, hn⟩ := ih
      exact ⟨n + 1, .succ hstep hn⟩

/-- What every step keeps, a run keeps. -/
theorem Steps.invariant {p : α → Prop} (hstep : ∀ a b, r a b → p a → p b) (h : Steps r n a b) (ha : p a) : p b := by
  induction h with
  | zero => exact ha
  | succ h _ ih => exact ih (hstep _ _ h ha)

def Diamond (r : α → α → Prop) : Prop := ∀ a b c, r a b → r a c → b = c ∨ ∃ d, r b d ∧ r c d

/-- A first step can be taken off every run to a state without steps. -/
theorem Diamond.strip (hr : Diamond r) (hz : ∀ x, ¬ r z x) (hrun : Steps r N a z) (hstep : r a b) :
    ∃ M, N = M + 1 ∧ Steps r M b z := by
  induction hrun generalizing b with
  | zero => exact absurd hstep (hz b)
  | @succ a a' z n hfirst hrest ih =>
      rcases hr a b a' hstep hfirst with rfl | ⟨d, hbd, had⟩
      · exact ⟨n, rfl, hrest⟩
      · obtain ⟨M, rfl, hM⟩ := ih hz had
        exact ⟨M + 1, rfl, .succ hbd hM⟩

theorem Diamond.complete (hr : Diamond r) (hz : ∀ x, ¬ r z x) (hall : Steps r N a z) (hrun : Steps r n a b) :
    ∃ m, n + m = N ∧ Steps r m b z := by
  induction hrun generalizing N with
  | zero => exact ⟨N, Nat.zero_add N, hall⟩
  | @succ a a' b n hstep _ ih =>
      obtain ⟨M, rfl, hM⟩ := hr.strip hz hall hstep
      obtain ⟨m, hm, hrest⟩ := ih hM
      exact ⟨m, by omega, hrest⟩

end Sddr.Lib
