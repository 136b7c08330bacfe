import Mathlib.Algebra.Field.MinimalAxioms
import Sddr.Erasure.ReedSol
import Sddr.Lib.Elimination

/-!
# The field behind galois.c

Makes `w`-bit words a field, so that the rules for linear systems apply, and computes what a dot product leaves in
its destination.
-/

namespace Sddr.Erasure
open Sddr.Lib

variable {g : Galois} {w : Nat}

/-! ## Sums -/

theorem xor_zero_word (a : BitVec w) : a ^^^ 0 = a := BitVec.xor_zero

theorem zero_xor_word (a : BitVec w) : 0 ^^^ a = a := BitVec.zero_xor

theorem xor_self_word (a : BitVec w) : a ^^^ a = 0 := BitVec.xor_self

theorem xorSum_succ (k : Nat) (f : Nat → BitVec w) : xorSum (k + 1) f = xorSum k f ^^^ f k := by
  simp [xorSum, List.range_succ]

theorem xorSum_xor (k : Nat) (f f' : Nat → BitVec w) : xorSum k f ^^^ xorSum k f' = xorSum k fun i => f i ^^^ f' i := by
  induction k with
  | zero => exact BitVec.xor_self
  | succ k ih =>
      rw [xorSum_succ, xorSum_succ, xorSum_succ, ← ih, BitVec.xor_assoc, BitVec.xor_assoc,
        ← BitVec.xor_assoc (f k), BitVec.xor_comm (f k), BitVec.xor_assoc]

theorem xorSum_congr {k : Nat} {f f' : Nat → BitVec w} (h : ∀ i < k, f i = f' i) : xorSum k f = xorSum k f' := by
  induction k with
  | zero => rfl
  | succ k ih => rw [xorSum_succ, xorSum_succ, ih fun i hi => h i (by omega), h k (by omega)]

namespace Galois.IsField

theorem multiply_zero (h : g.IsField w) (a : BitVec w) : g.multiply w a 0 = 0 := by
  have hself := h.multiply_xor a 0 0
  rwa [xor_self_word, xor_self_word] at hself

theorem zero_multiply (h : g.IsField w) (a : BitVec w) : g.multiply w 0 a = 0 := by
  rw [h.multiply_comm, h.multiply_zero]

theorem multiply_one (h : g.IsField w) (a : BitVec w) : g.multiply w a 1 = a := by
  rw [h.multiply_comm, h.one_multiply]

end Galois.IsField

/-! ## The field -/

/-- The words as elements of the field. -/
def GF (_ : Galois) (w : Nat) : Type := BitVec w

namespace GF

def of (a : BitVec w) : GF g w := a

instance : Add (GF g w) := ⟨fun a b => BitVec.xor a b⟩
instance : Mul (GF g w) := ⟨g.multiply w⟩
instance : Neg (GF g w) := ⟨id⟩
instance : Zero (GF g w) := ⟨of 0⟩
instance : One (GF g w) := ⟨of 1⟩
instance : DecidableEq (GF g w) := inferInstanceAs (DecidableEq (BitVec w))
instance : Inv (GF g w) := ⟨fun a => if a = 0 then 0 else g.divide w 1 a⟩

theorem one_ne_zero_word [NeZero w] : (1 : BitVec w) ≠ 0 := by
  intro heq
  have hbit := congrArg (fun b : BitVec w => b.getLsbD 0) heq
  simp [Nat.pos_of_neZero w] at hbit

theorem of_xor (a b : BitVec w) : (of (a ^^^ b) : GF g w) = of a + of b := rfl

theorem of_multiply (a b : BitVec w) : (of (g.multiply w a b) : GF g w) = of a * of b := rfl

theorem of_zero : (of 0 : GF g w) = 0 := rfl

theorem of_one : (of 1 : GF g w) = 1 := rfl

theorem of_inj {a b : BitVec w} : (of a : GF g w) = of b ↔ a = b := Iff.rfl

theorem add_self (a : GF g w) : a + a = 0 := BitVec.xor_self (x := a)

variable [Fact (g.IsField w)]

theorem isField : g.IsField w := Fact.out

variable [NeZero w]

instance : Field (GF g w) :=
  Field.ofMinimalAxioms (GF g w) (fun a b c => BitVec.xor_assoc a b c) (fun a => BitVec.zero_xor)
    (fun a => BitVec.xor_self) isField.multiply_assoc isField.multiply_comm isField.one_multiply
    (fun a ha => by
      change g.multiply w a (if a = 0 then 0 else g.divide w 1 a) = of 1
      rw [if_neg ha]
      exact (isField.multiply_comm _ _).trans (isField.divide_multiply 1 a ha))
    (if_pos rfl) isField.multiply_xor ⟨of 0, of 1, fun heq => one_ne_zero_word heq.symm⟩

/-- The product the code computes is the product in the field. -/
theorem of_dot (k : Nat) (row x : Nat → BitVec w) :
    (of (g.dot k row x) : GF g w) = Lib.dot k (fun i => of (row i)) fun i => of (x i) := by
  induction k with
  | zero => rfl
  | succ k ih => rw [Galois.dot, xorSum_succ, ← Galois.dot, dot_succ, ← ih, of_xor, of_multiply]

end GF

/-! ## jerasure_matrix_dotprod -/

section
variable {k : Nat} {row : Nat → BitVec w} {src_ids : Nat → Nat} {dest_id : Nat} {drives : Drives w}

theorem matrixDotprod_other {d : Nat} (hd : d ≠ dest_id) :
    matrixDotprod g k row src_ids dest_id drives d = drives d := by
  have hfold : ∀ (f : DotState w → Nat → DotState w), (∀ s i, (f s i).drives d = s.drives d) →
      ∀ (l : List Nat) (s : DotState w), (l.foldl f s).drives d = s.drives d := by
    intro f hf l
    induction l with
    | nil => exact fun s => rfl
    | cons i l ih => exact fun s => (ih _).trans (hf s i)
  refine (hfold _ (fun s i => ?_) _ _).trans (hfold _ (fun s i => ?_) _ _)
  · unfold dotFactors
    split_ifs <;> simp [hd]
  · unfold dotOnes
    split_ifs <;> simp [hd]

/-- What has been summed up so far in word `j`. -/
def DotState.value (s : DotState w) (dest_id j : Nat) : BitVec w := if s.init then s.drives dest_id j else 0

/-- The value summed up is `v`, and the sources still hold what they held. -/
structure Summed (s : DotState w) (drives : Drives w) (dest_id j : Nat) (init : Prop) (v : BitVec w) : Prop where
  value : s.value dest_id j = v
  init : s.init = true ↔ init
  others : ∀ d, d ≠ dest_id → s.drives d = drives d

theorem Summed.dotOnes {s : DotState w} {j i : Nat} {init : Prop} {v : BitVec w}
    (h : Summed s drives dest_id j init v) (hsrc : row i ≠ 0 → src_ids i ≠ dest_id) (hone : (1 : BitVec w) ≠ 0) :
    Summed (dotOnes row src_ids dest_id s i) drives dest_id j (init ∨ row i = 1)
      (v ^^^ if row i = 1 then drives (src_ids i) j else 0) := by
  by_cases hrow : row i = 1
  · have hsource := h.others _ (hsrc (hrow ▸ hone))
    cases hinit : s.init with
    | false =>
        have hv := h.value
        simp only [DotState.value, hinit, Bool.false_eq_true, if_false] at hv
        refine ⟨?_, by simp [Erasure.dotOnes, hrow, hinit], fun d hd => ?_⟩
        · simp [DotState.value, Erasure.dotOnes, hrow, hinit, hsource, ← hv]
        · simp [Erasure.dotOnes, hrow, hinit, hd, h.others d hd]
    | true =>
        have hv := h.value
        simp only [DotState.value, hinit, if_true] at hv
        refine ⟨?_, by simp [Erasure.dotOnes, hrow, hinit], fun d hd => ?_⟩
        · simp [DotState.value, Erasure.dotOnes, hrow, hinit, hsource, ← hv, regionXor, BitVec.xor_comm]
        · simp [Erasure.dotOnes, hrow, hinit, hd, h.others d hd]
  · rw [Erasure.dotOnes, if_neg hrow, if_neg hrow, xor_zero_word]
    simpa only [hrow, or_false] using h

theorem Summed.dotFactors {s : DotState w} {j i : Nat} {init : Prop} {v : BitVec w}
    (h : Summed s drives dest_id j init v) (hsrc : row i ≠ 0 → src_ids i ≠ dest_id) :
    Summed (dotFactors g row src_ids dest_id s i) drives dest_id j (init ∨ (row i ≠ 0 ∧ row i ≠ 1))
      (v ^^^ if row i ≠ 0 ∧ row i ≠ 1 then g.multiply w (row i) (drives (src_ids i) j) else 0) := by
  by_cases hrow : row i ≠ 0 ∧ row i ≠ 1
  · have hsource := h.others _ (hsrc hrow.1)
    have hv := h.value
    rw [Erasure.dotFactors, if_pos hrow, if_pos hrow]
    refine ⟨?_, iff_of_true rfl (Or.inr hrow), fun d hd => ?_⟩
    · cases hinit : s.init with
      | false =>
          simp only [DotState.value, hinit, Bool.false_eq_true, if_false] at hv
          simp [DotState.value, hsource, ← hv, regionMultiply]
      | true =>
          simp only [DotState.value, hinit, if_true] at hv
          simp [DotState.value, hsource, ← hv, regionMultiply]
    · simp [hd, h.others d hd]
  · rw [Erasure.dotFactors, if_neg hrow, if_neg hrow, xor_zero_word]
    simpa only [hrow, or_false] using h

theorem summed_foldl (f : DotState w → Nat → DotState w) (picked : Nat → Prop) (term : Nat → BitVec w) {j : Nat}
    (hstep : ∀ s i init v, i < k → Summed s drives dest_id j init v →
      Summed (f s i) drives dest_id j (init ∨ picked i) (v ^^^ term i))
    {s : DotState w} {init : Prop} {v : BitVec w} (h : Summed s drives dest_id j init v) :
    ∀ n ≤ k, Summed ((List.range n).foldl f s) drives dest_id j (init ∨ ∃ i < n, picked i) (v ^^^ xorSum n term) := by
  intro n hn
  induction n with
  | zero => simpa [xorSum] using h
  | succ n ih =>
      have hnext := hstep _ n _ _ (by omega) (ih (by omega))
      rw [List.range_succ, List.foldl_append, xorSum_succ, ← BitVec.xor_assoc]
      refine ⟨hnext.value, hnext.init.trans ?_, hnext.others⟩
      constructor
      · rintro ((hinit | ⟨i, hi, hp⟩) | hp)
        · exact Or.inl hinit
        · exact Or.inr ⟨i, by omega, hp⟩
        · exact Or.inr ⟨n, by omega, hp⟩
      · rintro (hinit | ⟨i, hi, hp⟩)
        · exact Or.inl (Or.inl hinit)
        · rcases Nat.lt_succ_iff_lt_or_eq.mp hi with hlt | rfl
          · exact Or.inl (Or.inr ⟨i, hlt, hp⟩)
          · exact Or.inr hp

/-- With sources apart from the destination and some factor not zero, the destination gets the product. -/
theorem matrixDotprod_spec (h : g.IsField w) (hone : (1 : BitVec w) ≠ 0)
    (hsrc : ∀ i < k, row i ≠ 0 → src_ids i ≠ dest_id) (hrow : ∃ i < k, row i ≠ 0) (j : Nat) :
    matrixDotprod g k row src_ids dest_id drives dest_id j = g.dot k row (fun i => drives (src_ids i) j) := by
  have hstart : Summed ⟨false, drives⟩ drives dest_id j False (0 : BitVec w) :=
    ⟨rfl, by simp, fun _ _ => rfl⟩
  have hones := summed_foldl (Erasure.dotOnes row src_ids dest_id) (fun i => row i = 1) _
    (fun s i init v hi hs => hs.dotOnes (hsrc i hi) hone) hstart k (Nat.le_refl k)
  have hall := summed_foldl (Erasure.dotFactors g row src_ids dest_id) (fun i => row i ≠ 0 ∧ row i ≠ 1) _
    (fun s i init v hi hs => hs.dotFactors (hsrc i hi)) hones k (Nat.le_refl k)
  have hinit := hall.init.mpr (by
    obtain ⟨i, hi, hne⟩ := hrow
    by_cases h1 : row i = 1
    · exact Or.inl (Or.inr ⟨i, hi, h1⟩)
    · exact Or.inr ⟨i, hi, hne, h1⟩)
  have hvalue := hall.value
  rw [DotState.value, if_pos hinit, zero_xor_word, xorSum_xor] at hvalue
  refine hvalue.trans (xorSum_congr fun i hi => ?_)
  by_cases h0 : row i = 0
  · rw [if_neg (fun h1 => hone (h1.symm.trans h0)), if_neg (fun hf => hf.1 h0), h0, h.zero_multiply,
      xor_self_word]
  · by_cases h1 : row i = 1
    · rw [if_pos h1, if_neg (fun hf => hf.2 h1), h1, h.one_multiply, xor_zero_word]
    · rw [if_neg h1, if_pos ⟨h0, h1⟩, zero_xor_word]

end

end Sddr.Erasure
