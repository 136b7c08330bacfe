import Mathlib.Data.List.Induction

/-!
# Move-to-front lists

A list of elements with keys. An element that is added goes to the front and takes the place of the one with its key.
-/

namespace Sddr.Lib

inductive Touch (α κ : Type) where
  | add (a : α)
  | remove (k : κ)

variable {α κ : Type} [DecidableEq κ] (keyOf : α → κ)

def Touch.key : Touch α κ → κ
  | add a => keyOf a
  | remove k => k

def moveToFront (l : List α) : Touch α κ → List α
  | .add a => a :: l.filter fun b => keyOf b ≠ keyOf a
  | .remove k => l.filter fun b => keyOf b ≠ k

def lastTouch (touches : List (Touch α κ)) (k : κ) : Option (Touch α κ) :=
  touches.reverse.find? fun t => t.key keyOf = k

/-- How many touches came after the last one of the key. -/
def age (touches : List (Touch α κ)) (k : κ) : Nat := touches.reverse.findIdx fun t => t.key keyOf = k

/-- The elements whose last touch added them, the most recent one first. -/
structure Fronted (touches : List (Touch α κ)) (l : List α) : Prop where
  mem : ∀ a, a ∈ l ↔ lastTouch keyOf touches (keyOf a) = some (.add a)
  order : l.Pairwise fun a b => age keyOf touches (keyOf a) < age keyOf touches (keyOf b)

variable {keyOf} {touches : List (Touch α κ)} {l : List α}

theorem lastTouch_concat (t : Touch α κ) (k : κ) :
    lastTouch keyOf (touches ++ [t]) k = if t.key keyOf = k then some t else lastTouch keyOf touches k := by
  by_cases hk : t.key keyOf = k
  · simp [lastTouch, hk]
  · simp [lastTouch, hk]

theorem age_concat (t : Touch α κ) (k : κ) :
    age keyOf (touches ++ [t]) k = if t.key keyOf = k then 0 else age keyOf touches k + 1 := by
  by_cases hk : t.key keyOf = k
  · simp [age, hk, List.findIdx_cons]
  · simp [age, hk, List.findIdx_cons]

theorem Fronted.nodup (h : Fronted keyOf touches l) : (l.map keyOf).Nodup := by
  refine List.nodup_iff_pairwise_ne.mpr (List.pairwise_map.mpr (h.order.imp fun hlt heq => ?_))
  rw [heq] at hlt
  exact Nat.lt_irrefl _ hlt

/-- What a touch leaves in the list has another key, and ages alike. -/
theorem Fronted.filter (h : Fronted keyOf touches l) (t : Touch α κ) :
    (∀ a, a ∈ l.filter (fun b => keyOf b ≠ t.key keyOf) ↔
      t.key keyOf ≠ keyOf a ∧ lastTouch keyOf (touches ++ [t]) (keyOf a) = some (.add a)) ∧
    (l.filter fun b => keyOf b ≠ t.key keyOf).Pairwise fun a b =>
      age keyOf (touches ++ [t]) (keyOf a) < age keyOf (touches ++ [t]) (keyOf b) := by
  constructor
  · intro a
    rw [List.mem_filter, h.mem, decide_eq_true_eq, lastTouch_concat, and_comm, ne_comm]
    refine and_congr_right fun hne => ?_
    rw [if_neg hne]
  · refine (h.order.filter _).imp_of_mem fun {a b} ha hb hlt => ?_
    have hane := of_decide_eq_true (List.mem_filter.mp ha).2
    have hbne := of_decide_eq_true (List.mem_filter.mp hb).2
    rw [age_concat, age_concat, if_neg (Ne.symm hane), if_neg (Ne.symm hbne)]
    exact Nat.succ_lt_succ hlt

theorem Fronted.step (h : Fronted keyOf touches l) (t : Touch α κ) :
    Fronted keyOf (touches ++ [t]) (moveToFront keyOf l t) := by
  obtain ⟨hmem, horder⟩ := h.filter t
  cases t with
  | remove k =>
      refine ⟨fun a => (hmem a).trans ⟨And.right, fun hlast => ⟨fun heq => ?_, hlast⟩⟩, horder⟩
      rw [lastTouch_concat, if_pos heq] at hlast
      cases hlast
  | add a =>
      refine ⟨fun b => ?_, List.pairwise_cons.mpr ⟨fun b hb => ?_, horder⟩⟩
      · rw [moveToFront, List.mem_cons]
        constructor
        · rintro (rfl | hb)
          · exact (lastTouch_concat _ _).trans (if_pos rfl)
          · exact ((hmem b).mp hb).2
        · intro hlast
          by_cases hkey : Touch.key keyOf (.add a) = keyOf b
          · rw [lastTouch_concat, if_pos hkey] at hlast
            cases hlast
            exact Or.inl rfl
          · exact Or.inr ((hmem b).mpr ⟨hkey, hlast⟩)
      · have hne := ((hmem b).mp hb).1
        have hfront : age keyOf (touches ++ [.add a]) (keyOf a) = 0 := (age_concat _ _).trans (if_pos rfl)
        rw [hfront, age_concat, if_neg hne]
        exact Nat.succ_pos _

/-- The list after any touches. -/
theorem fronted_foldl (touches : List (Touch α κ)) : Fronted keyOf touches (touches.foldl (moveToFront keyOf) []) := by
  induction touches using List.reverseRecOn with
  | nil => exact ⟨fun a => by simp [lastTouch], List.Pairwise.nil⟩
  | append_singleton touches t ih =>
      rw [List.foldl_append]
      exact ih.step t

end Sddr.Lib
