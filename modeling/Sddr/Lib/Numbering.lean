import Mathlib.Data.List.Nodup

/-!
# Numbers under a key

Numbers are taken in order under the current key, as long as they are below a limit, and a new key starts again at 0.
No number is taken twice under one key if no key returns.
-/

namespace Sddr.Lib

/-- The current key, and the number that is taken next. -/
structure Numbering (K : Type) where
  key : K
  next : Nat

namespace Numbering

inductive Event (K : Type) where
  | take
  | rekey (key : K)

variable {K : Type}

def Event.newKey? : Event K → Option K
  | take => none
  | rekey key => some key

/-- The numbers that are taken, each with its key. -/
def taken (limit : Nat) : Numbering K → List (Event K) → List (K × Nat)
  | _, [] => []
  | s, .take :: events =>
      if s.next < limit then (s.key, s.next) :: taken limit ⟨s.key, s.next + 1⟩ events else taken limit s events
  | _, .rekey key :: events => taken limit ⟨key, 0⟩ events

variable {limit : Nat} {s : Numbering K} {events : List (Event K)}

theorem taken_take (h : s.next < limit) :
    taken limit s (.take :: events) = (s.key, s.next) :: taken limit ⟨s.key, s.next + 1⟩ events := by rw [taken, if_pos h]

theorem taken_full (h : limit ≤ s.next) : taken limit s (.take :: events) = taken limit s events := by
  rw [taken, if_neg (Nat.not_lt.mpr h)]

theorem mem_taken {p : K × Nat} (h : p ∈ taken limit s events) :
    p.2 < limit ∧ (p.1 = s.key ∧ s.next ≤ p.2 ∨ p.1 ∈ events.filterMap Event.newKey?) := by
  induction events generalizing s with
  | nil => cases h
  | cons event events ih =>
      cases event with
      | take =>
          rw [taken] at h
          split_ifs at h with hlt
          · rcases List.mem_cons.mp h with rfl | h
            · exact ⟨hlt, Or.inl ⟨rfl, Nat.le_refl _⟩⟩
            · obtain ⟨hlimit, ⟨hkey, hle⟩ | hnew⟩ := ih h
              · exact ⟨hlimit, Or.inl ⟨hkey, Nat.le_of_succ_le hle⟩⟩
              · exact ⟨hlimit, Or.inr hnew⟩
          · exact ih h
      | rekey key =>
          obtain ⟨hlimit, ⟨hkey, -⟩ | hnew⟩ := ih h
          · exact ⟨hlimit, Or.inr (hkey ▸ List.mem_cons_self)⟩
          · exact ⟨hlimit, Or.inr (List.mem_cons_of_mem _ hnew)⟩

theorem nodup_taken (limit : Nat) (h : (s.key :: events.filterMap Event.newKey?).Nodup) : (taken limit s events).Nodup := by
  induction events generalizing s with
  | nil => exact List.nodup_nil
  | cons event events ih =>
      cases event with
      | take =>
          have hrest := ih h (s := ⟨s.key, s.next + 1⟩)
          rw [taken]
          split_ifs
          · refine List.nodup_cons.mpr ⟨fun hmem => ?_, hrest⟩
            obtain ⟨-, ⟨-, hle⟩ | hnew⟩ := mem_taken hmem
            · exact Nat.not_succ_le_self _ hle
            · exact (List.nodup_cons.mp h).1 hnew
          · exact ih h
      | rekey key => exact ih (List.nodup_cons.mp h).2

end Numbering

end Sddr.Lib
