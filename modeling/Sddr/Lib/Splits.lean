import Mathlib.Data.List.Basic

/-!
# Splits of a list

A property of an element together with what is in front of it and behind it, for all elements of a list.
-/

namespace Sddr.Lib

variable {α : Type} {p : List α → α → List α → Prop} {a : α} {l : List α}

theorem forall_split_nil : ∀ front x back, [] = front ++ x :: back → p front x back :=
  fun front x back heq => absurd heq.symm (List.append_ne_nil_of_right_ne_nil front (List.cons_ne_nil x back))

/-- The first element is split off with nothing in front of it. -/
theorem forall_split_cons :
    (∀ front x back, a :: l = front ++ x :: back → p front x back) ↔
      p [] a l ∧ ∀ front x back, l = front ++ x :: back → p (a :: front) x back := by
  constructor
  · intro h
    exact ⟨h [] a l rfl, fun front x back heq => h (a :: front) x back (congrArg (a :: ·) heq)⟩
  · rintro ⟨hfirst, hrest⟩ front x back heq
    cases front with
    | nil =>
        obtain ⟨rfl, rfl⟩ := List.cons.inj heq
        exact hfirst
    | cons first front =>
        obtain ⟨rfl, rfl⟩ := List.cons.inj heq
        exact hrest front x back rfl

theorem exists_split_cons :
    (∃ front x back, a :: l = front ++ x :: back ∧ p front x back) ↔
      p [] a l ∨ ∃ front x back, l = front ++ x :: back ∧ p (a :: front) x back := by
  constructor
  · rintro ⟨front, x, back, heq, hp⟩
    cases front with
    | nil =>
        obtain ⟨rfl, rfl⟩ := List.cons.inj heq
        exact Or.inl hp
    | cons first front =>
        obtain ⟨rfl, rfl⟩ := List.cons.inj heq
        exact Or.inr ⟨front, x, back, rfl, hp⟩
  · rintro (hp | ⟨front, x, back, heq, hp⟩)
    · exact ⟨[], a, l, rfl, hp⟩
    · exact ⟨a :: front, x, back, congrArg (a :: ·) heq, hp⟩

end Sddr.Lib
