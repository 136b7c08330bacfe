import Mathlib.Logic.Basic

/-!
# Runs of a machine

A machine takes an event, or does not. A run gives it one event after the other.
-/

namespace Sddr.Lib

variable {σ ε : Type}

def runs (act : σ → ε → Option σ) : List ε → σ → Option σ
  | [], s => some s
  | event :: events, s => (act s event).bind (runs act events)

/-- Every event of the run meets a condition, in the state it finds. -/
def Along (act : σ → ε → Option σ) (Meets : σ → ε → Prop) : List ε → σ → Prop
  | [], _ => True
  | event :: events, s => Meets s event ∧ ∀ s' ∈ act s event, Along act Meets events s'

instance decidableAlong (act : σ → ε → Option σ) (Meets : σ → ε → Prop) [∀ s event, Decidable (Meets s event)] :
    ∀ events, DecidablePred (Along act Meets events)
  | [] => fun _ => isTrue trivial
  | event :: events => fun s =>
      have := decidableAlong act Meets events
      inferInstanceAs (Decidable (Meets s event ∧ ∀ s' ∈ act s event, Along act Meets events s'))

variable {act : σ → ε → Option σ} {Meets : σ → ε → Prop} {Inv : σ → Prop} {events : List ε} {s s' : σ}

/-- What every event that meets the condition keeps, a run of such events keeps. -/
theorem runs_keep (hact : ∀ s event s', Inv s → Meets s event → act s event = some s' → Inv s') (h : Inv s)
    (hmeets : Along act Meets events s) (hrun : runs act events s = some s') : Inv s' := by
  induction events generalizing s with
  | nil =>
      cases hrun
      exact h
  | cons event events ih =>
      obtain ⟨hfirst, hrest⟩ := hmeets
      obtain ⟨next, hnext, hrun⟩ := Option.bind_eq_some_iff.mp hrun
      exact ih (hact s event next h hfirst hnext) (hrest next hnext) hrun

theorem along_congr {Meets' : σ → ε → Prop} (h : ∀ s event, Meets s event ↔ Meets' s event) :
    Along act Meets events s ↔ Along act Meets' events s := by
  induction events generalizing s with
  | nil => exact Iff.rfl
  | cons event events ih => exact and_congr (h s event) (forall₂_congr fun _ _ => ih)

end Sddr.Lib
