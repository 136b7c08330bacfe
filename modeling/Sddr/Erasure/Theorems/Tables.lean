import Sddr.Erasure.Lemmas.Calls

/-! # Main results about the tables -/

namespace Sddr.Erasure.Tables

/-- `galois_invert_binary_matrix` inverts the matrices with independent rows and exits on all others. -/
theorem invertBinaryMatrix_total {w : Nat} (mat : BinaryMatrix w) :
    (∃ inv, invertBinaryMatrix mat = some inv ∧ ∀ r < w, combine (inv.row r) mat = 1#w <<< r) ∨
      (invertBinaryMatrix mat = none ∧ ∃ v, v ≠ 0 ∧ combine v mat = 0) := by
  cases hrun : invertBinaryMatrix mat with
  | some inv => exact Or.inl ⟨inv, rfl, fun r hr => combine_inverse hrun hr⟩
  | none =>
      refine Or.inr ⟨rfl, ?_⟩
      by_contra hnone
      have hsome := invertBinaryMatrix_isSome fun v hv => by
        by_contra hne
        exact hnone ⟨v, hne, hv⟩
      rw [hrun] at hsome
      exact Bool.false_ne_true hsome

/-- Whatever calls come first, every call gets the answer of plain arithmetic: no table is built with a collision, read
outside its bounds or changed by a later call. -/
theorem run_init (calls : List Call) (hcalls : ∀ c ∈ calls, c.Allowed) :
    (run calls Statics.init).map Prod.fst = some (calls.map Call.plain) := by
  obtain ⟨s, hrun, -⟩ := run_plain calls hcalls Statics.Valid.init
  rw [hrun, Option.map_some]

theorem run_init_some :
    (run [.w08RegionMultiply [1, 2, 3, 4, 5, 6, 7, 8] 0x53 (some [0, 0, 0, 0, 0, 0, 0, 1]) true,
        .singleDivide 16 0x1234 0xCAFE, .inverse 32 0xDEADBEEF, .singleMultiply 32 0x12345678 0x9ABCDEF0]
      Statics.init).map Prod.fst
      = some [[83, 166, 245, 81, 2, 247, 164, 163], [63625], [570554047], [2156827741]] :=
  (run_init _ (by simp [Call.Allowed, WholeLongs])).trans (by decide +kernel)

/-! ## Coding with tables -/

/-- The arithmetic as `jerasure.c` calls it, from tables not yet built. -/
def galoisTables : Galois where
  multiply _ x y := ((singleMultiply x y Statics.init).map Prod.fst).getD 0
  divide _ a b := ((singleDivide a b Statics.init).map Prod.fst).getD 0

theorem galoisTables_multiply {w : Nat} (hw : w ∈ [8, 16, 32]) (x y : BitVec w) :
    galoisTables.multiply w x y = galoisShift.multiply w x y := by
  obtain ⟨s, hrun, -⟩ := singleMultiply_answers Statics.Valid.init hw x y
  dsimp only [galoisTables]
  rw [hrun]
  rfl

theorem galoisTables_divide {w : Nat} (hw : w ∈ [8, 16, 32]) (a : BitVec w) {b : BitVec w} (hb : b ≠ 0) :
    galoisTables.divide w a b = galoisShift.divide w a b := by
  obtain ⟨s, hrun, -⟩ := singleDivide_answers Statics.Valid.init hw a b
  dsimp only [galoisTables]
  rw [hrun]
  exact if_neg hb

theorem galoisTables_isField {w : Nat} (hw : w ∈ [8, 16, 32]) : galoisTables.IsField w := by
  have h := (fieldWidth_of_mem hw).isField
  constructor
  · intro a b c
    simp only [galoisTables_multiply hw]
    exact h.multiply_assoc a b c
  · intro a b
    simp only [galoisTables_multiply hw]
    exact h.multiply_comm a b
  · intro a
    simp only [galoisTables_multiply hw]
    exact h.one_multiply a
  · intro a b c
    simp only [galoisTables_multiply hw]
    exact h.multiply_xor a b c
  · intro a b hb
    rw [galoisTables_divide hw a hb, galoisTables_multiply hw]
    exact h.divide_multiply a b hb

/-- With the tables, symbols of every width can be coded: the coding matrices of all their parts are built, and any `K`
symbols determine the data. -/
theorem codable_galoisTables {K M : Nat} (hK : 0 < K) (hM : 0 < M) (hsize : K + M ≤ 256) (W : Nat) :
    Codable galoisTables K M W := by
  intro w hw
  have hmem : 8 * w ∈ [8, 16, 32] := by
    rcases mem_partWidths hw with rfl | rfl | rfl <;> decide
  have hfield := galoisTables_isField hmem
  have : Fact (galoisTables.IsField (8 * w)) := ⟨hfield⟩
  have : NeZero (8 * w) := ⟨by have := (fieldWidth_of_mem hmem).one_lt; omega⟩
  have hpow : 2 ^ 8 ≤ 2 ^ (8 * w) := Nat.pow_le_pow_right (by decide) (by rcases mem_widths hmem with h | h | h <;> omega)
  exact ⟨hfield, vandermondeCodingMatrix_mds hK hM (hsize.trans hpow)⟩

theorem codable_galoisTables_some : Codable galoisTables 20 8 7 :=
  codable_galoisTables (by decide) (by decide) (by decide) 7

end Sddr.Erasure.Tables
