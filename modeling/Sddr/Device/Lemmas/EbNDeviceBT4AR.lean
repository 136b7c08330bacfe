import Sddr.Device.EbNDeviceBT4AR
import Sddr.Lib.Splits

/-!
# Erasing from a list that is traversed

An erased entry takes the one behind it out of the traversal, which is right if that one is kept anyway.
-/

namespace Sddr.Device
open Sddr.Lib

variable {α : Type} {keep : α → Bool} {l : List α}

/-! ## Spaced -/

theorem spaced_nil (keep : α → Bool) : Spaced keep [] := forall_split_nil

theorem spaced_cons {value : α} :
    Spaced keep (value :: l) ↔
      (keep value = false → ∃ next rest, l = next :: rest ∧ keep next = true) ∧ Spaced keep l :=
  forall_split_cons

theorem spaced_cons_kept {value : α} (hkeep : keep value = true) : Spaced keep (value :: l) ↔ Spaced keep l :=
  spaced_cons.trans (and_iff_right fun herased => absurd herased (by rw [hkeep]; exact Bool.noConfusion))

theorem not_spaced_singleton {value : α} (hkeep : keep value = false) : ¬ Spaced keep [value] := by
  intro h
  obtain ⟨next, rest, heq, -⟩ := (spaced_cons.mp h).1 hkeep
  exact absurd heq.symm (List.cons_ne_nil next rest)

theorem spaced_cons_erased {value next : α} (hkeep : keep value = false) :
    Spaced keep (value :: next :: l) ↔ keep next = true ∧ Spaced keep l := by
  rw [spaced_cons]
  constructor
  · rintro ⟨hfollowed, hrest⟩
    obtain ⟨_, _, heq, hnext⟩ := hfollowed hkeep
    obtain ⟨rfl, rfl⟩ := List.cons.inj heq
    exact ⟨hnext, (spaced_cons_kept hnext).mp hrest⟩
  · rintro ⟨hnext, hrest⟩
    exact ⟨fun _ => ⟨next, l, rfl, hnext⟩, (spaced_cons_kept hnext).mpr hrest⟩

/-! ## eraseUnless -/

theorem eraseUnless_erased {l rest : List α} {erased : Bool} (h : eraseUnless keep l = some (rest, erased)) :
    erased = l.any fun value => !keep value := by
  fun_induction eraseUnless keep l generalizing rest erased with
  | case1 =>
      cases h
      rfl
  | case2 value matching hkeep ih =>
      obtain ⟨⟨rest', erased'⟩, hrest, heq⟩ := Option.map_eq_some_iff.mp h
      cases heq
      rw [ih hrest, List.any_cons, hkeep, Bool.not_true, Bool.false_or]
  | case3 value hkeep => cases h
  | case4 value hkeep next matching ih =>
      obtain ⟨⟨rest', erased'⟩, -, heq⟩ := Option.map_eq_some_iff.mp h
      cases heq
      rw [List.any_cons, Bool.eq_false_iff.mpr hkeep, Bool.not_false, Bool.true_or]

/-- What is left are the entries to keep if and only if every other one is followed by one of them. -/
theorem eraseUnless_filter_iff (keep : α → Bool) (l : List α) :
    (∃ erased, eraseUnless keep l = some (l.filter keep, erased)) ↔ Spaced keep l := by
  fun_induction eraseUnless keep l with
  | case1 => exact iff_of_true ⟨false, rfl⟩ (spaced_nil keep)
  | case2 value matching hkeep ih =>
      rw [spaced_cons_kept hkeep, ← ih, List.filter_cons_of_pos hkeep]
      constructor
      · rintro ⟨erased, h⟩
        obtain ⟨⟨rest, erased'⟩, hrest, heq⟩ := Option.map_eq_some_iff.mp h
        cases heq
        exact ⟨erased, hrest⟩
      · rintro ⟨erased, hrest⟩
        exact ⟨erased, by rw [hrest]; rfl⟩
  | case3 value hkeep =>
      refine iff_of_false ?_ (not_spaced_singleton (Bool.eq_false_iff.mpr hkeep))
      rintro ⟨erased, h⟩
      cases h
  | case4 value hkeep next matching ih =>
      have herased : keep value = false := Bool.eq_false_iff.mpr hkeep
      rw [spaced_cons_erased herased, ← ih, List.filter_cons_of_neg hkeep]
      constructor
      · rintro ⟨erased, h⟩
        obtain ⟨⟨rest, erased'⟩, hrest, heq⟩ := Option.map_eq_some_iff.mp h
        -- the entry behind the erased one is in what is left
        have hleft : next :: rest = (next :: matching).filter keep := (Prod.ext_iff.mp heq).1
        have hnext : keep next = true := (List.mem_filter.mp (hleft ▸ List.mem_cons_self)).2
        rw [List.filter_cons_of_pos hnext, List.cons.injEq] at hleft
        exact ⟨hnext, erased', by rw [hrest, hleft.2]⟩
      · rintro ⟨hnext, erased, hrest⟩
        exact ⟨true, by rw [hrest, List.filter_cons_of_pos hnext]; rfl⟩

end Sddr.Device
