import Sddr.Erasure.Lemmas.Galois

/-!
# jerasure_invert_matrix inverts

Both passes keep the solutions of the system `mat · x = inv · y`. The first leaves `mat` upper triangular with ones
on the diagonal, the second leaves the identity.
-/

namespace Sddr.Erasure
open Sddr.Lib

variable {g : Galois} {w n : Nat} [Fact (g.IsField w)] [NeZero w]

/-- The entries of a matrix as field elements. -/
abbrev ofRows (g : Galois) (a : IntMatrix w) : Rows (GF g w) := fun r c => GF.of (a r c)

/-- What both passes keep: the system stays regular and the solutions of the start remain solutions. -/
structure Sound (g : Galois) (n : Nat) (mat : IntMatrix w) (a : Augmented w) [Fact (g.IsField w)] [NeZero w] :
    Prop where
  regular : Regular n (ofRows g a.mat)
  solves : ∀ x y : Nat → GF g w, (∀ r < n, dot n (ofRows g mat r) x = y r) →
    Solves n (ofRows g a.mat) (ofRows g a.inv) x y

/-- The columns before `i` are those of an upper triangular matrix with ones on the diagonal. -/
def Upper (n i : Nat) (mat : IntMatrix w) : Prop := ∀ c < i, mat c c = 1 ∧ ∀ r < n, c < r → mat r c = 0

/-- The columns from `i` on are clear above the diagonal. -/
def Cleared (n i : Nat) (mat : IntMatrix w) : Prop := ∀ c < n, i ≤ c → ∀ r < c, mat r c = 0

variable {mat : IntMatrix w} {a : Augmented w} {i j : Nat}

theorem Sound.start (h : Regular n (ofRows g mat)) :
    Sound g n mat ⟨mat, fun i j => if i = j then 1 else 0⟩ := by
  refine ⟨h, fun x y hy r hr => ?_⟩
  rw [hy r hr, dot_unit hr]
  intro c _
  by_cases hrc : r = c
  · simp only [ofRows, hrc, if_true]; rfl
  · simp only [ofRows, hrc, Ne.symm hrc, if_false]; rfl

/-! ## The first pass -/

theorem pivotRow_spec (h : Sound g n mat a) (hupper : Upper n i a.mat) (hi : i < n) :
    ∃ a', pivotRow n i a = some a' ∧ Sound g n mat a' ∧ Upper n i a'.mat ∧ a'.mat i i ≠ 0 := by
  unfold pivotRow
  by_cases hzero : a.mat i i = 0
  · rw [if_pos hzero]
    obtain ⟨j, hij, hj, hne⟩ := h.regular.exists_pivot hi fun c hc r hr hcr => (hupper c hc).2 r hr hcr
    have hne' : a.mat j i ≠ 0 := hne
    have hji : i + 1 ≤ j := by
      rcases Nat.eq_or_lt_of_le hij with rfl | hlt
      · exact absurd hzero hne'
      · exact hlt
    cases hfind : (List.range' (i + 1) (n - (i + 1))).find? fun j => a.mat j i ≠ 0 with
    | none =>
        have hall := List.find?_eq_none.mp hfind j (List.mem_range'_1.mpr ⟨hji, by omega⟩)
        exact absurd (by simpa using hall) hne'
    | some p =>
        obtain ⟨hp, hpn⟩ := List.mem_range'_1.mp (List.mem_of_find?_eq_some hfind)
        have hpivot : a.mat p i ≠ 0 := by simpa using List.find?_some hfind
        have hpn : p < n := by omega
        have hrows : ∀ m : IntMatrix w, ofRows g (swapRows i p m) = fun r =>
            if r = i then ofRows g m p else if r = p then ofRows g m i else ofRows g m r := by
          intro m
          funext r c
          simp only [ofRows, swapRows]
          split_ifs <;> rfl
        refine ⟨a.both (swapRows i p), rfl, ⟨?_, fun x y hy => ?_⟩, fun c hc => ⟨?_, fun r hr hcr => ?_⟩, ?_⟩
        · rw [Augmented.both, hrows]
          exact h.regular.swap hi hpn
        · rw [Augmented.both, hrows, hrows]
          exact (h.solves x y hy).swap hi hpn
        · have hci : c ≠ i := by omega
          have hcp : c ≠ p := by omega
          simp only [Augmented.both, swapRows, if_neg hci, if_neg hcp]
          exact (hupper c hc).1
        · simp only [Augmented.both, swapRows]
          split_ifs
          · exact (hupper c hc).2 p hpn (by omega)
          · exact (hupper c hc).2 i hi hc
          · exact (hupper c hc).2 r hr hcr
        · simpa only [Augmented.both, swapRows, if_true] using hpivot
  · rw [if_neg hzero]
    exact ⟨a, rfl, h, hupper, hzero⟩

theorem normalizeRow_spec (h : Sound g n mat a) (hupper : Upper n i a.mat) (hi : i < n) (hne : a.mat i i ≠ 0) :
    Sound g n mat (normalizeRow g i a) ∧ Upper n i (normalizeRow g i a).mat ∧ (normalizeRow g i a).mat i i = 1 := by
  unfold normalizeRow
  by_cases hone : a.mat i i = 1
  · rw [if_neg (not_not.mpr hone)]
    exact ⟨h, hupper, hone⟩
  · have hinverse : g.multiply w (g.divide w 1 (a.mat i i)) (a.mat i i) = 1 :=
      GF.isField.divide_multiply 1 _ hne
    have hfactor : (GF.of (g.divide w 1 (a.mat i i)) : GF g w) ≠ 0 := by
      intro hzero
      have hzero : g.divide w 1 (a.mat i i) = 0 := hzero
      rw [hzero, GF.isField.zero_multiply] at hinverse
      exact GF.one_ne_zero_word hinverse.symm
    have hscale : ∀ m : IntMatrix w, ∀ r < n, ∀ c < n,
        ofRows g (scaleRow g i (g.divide w 1 (a.mat i i)) m) r c
          = if r = i then ofRows g m r c * GF.of (g.divide w 1 (a.mat i i)) else ofRows g m r c := by
      intro m r _ c _
      simp only [ofRows, scaleRow]
      split_ifs with hri
      · rw [hri, GF.of_multiply]
      · rfl
    rw [if_pos hone]
    refine ⟨⟨h.regular.scale hfactor (hscale a.mat),
      fun x y hy => (h.solves x y hy).scale _ (hscale a.mat) (hscale a.inv)⟩, fun c hc => ⟨?_, fun r hr hcr => ?_⟩, ?_⟩
    · have hci : c ≠ i := by omega
      simp only [Augmented.both, scaleRow, if_neg hci]
      exact (hupper c hc).1
    · simp only [Augmented.both, scaleRow]
      split_ifs with hri
      · rw [(hupper c hc).2 i hi hc, GF.isField.zero_multiply]
      · exact (hupper c hc).2 r hr hcr
    · simp only [Augmented.both, scaleRow, if_true]
      rw [GF.isField.multiply_comm, hinverse]

theorem clearBelow_spec (h : Sound g n mat a) (hupper : Upper n i a.mat) (hone : a.mat i i = 1) (hij : i < j)
    (hj : j < n) :
    let a' := clearBelow g i a j
    Sound g n mat a' ∧ Upper n i a'.mat ∧ a'.mat j i = 0 ∧ ∀ r, r ≠ j → a'.mat r i = a.mat r i := by
  intro a'
  by_cases hzero : a.mat j i = 0
  · have ha' : a' = a := by simp only [a', clearBelow, hzero, ne_eq, not_true, if_false]
    rw [ha']
    exact ⟨h, hupper, hzero, fun _ _ => rfl⟩
  · have ha' : a' = a.both (addRow g j i (a.mat j i)) := by simp only [a', clearBelow, ne_eq, hzero, not_false_iff, if_true]
    have hadd : ∀ m : IntMatrix w, ∀ r c, addRow g j i (a.mat j i) m r c
        = if r = j then m r c ^^^ g.multiply w (a.mat j i) (m i c) else m r c := by
      intro m r c
      simp only [addRow]
      split_ifs with hrj h1
      · rw [h1, GF.isField.one_multiply, hrj]
      · rw [hrj]
      · rfl
    have hfield : ∀ m : IntMatrix w, ∀ r < n, ∀ c < n, ofRows g (addRow g j i (a.mat j i) m) r c
        = if r = j then ofRows g m r c + GF.of (a.mat j i) * ofRows g m i c else ofRows g m r c := by
      intro m r _ c _
      simp only [ofRows, hadd]
      split_ifs <;> rfl
    rw [ha']
    refine ⟨⟨h.regular.add (by omega) (by omega) _ (hfield a.mat),
      fun x y hy => (h.solves x y hy).add (by omega) _ (hfield a.mat) (hfield a.inv)⟩,
      fun c hc => ⟨?_, fun r hr hcr => ?_⟩, ?_, fun r hr => ?_⟩
    · simp only [Augmented.both, hadd, if_neg (show c ≠ j by omega)]
      exact (hupper c hc).1
    · simp only [Augmented.both, hadd]
      split_ifs
      · rw [(hupper c hc).2 r hr hcr, (hupper c hc).2 i (by omega) hc, GF.isField.multiply_zero, xor_zero_word]
      · exact (hupper c hc).2 r hr hcr
    · simp only [Augmented.both, hadd, if_true, hone]
      rw [GF.isField.multiply_one, xor_self_word]
    · simp only [Augmented.both, hadd, if_neg hr]

theorem clearBelow_foldl (h : Sound g n mat a) (hupper : Upper n i a.mat) (hone : a.mat i i = 1) :
    ∀ k, i + 1 + k ≤ n →
      let a' := (List.range' (i + 1) k).foldl (clearBelow g i) a
      Sound g n mat a' ∧ Upper n i a'.mat ∧ a'.mat i i = 1 ∧ ∀ r, i < r → r < i + 1 + k → a'.mat r i = 0 := by
  intro k hk
  induction k with
  | zero => exact ⟨h, hupper, hone, fun r hr hlt => by omega⟩
  | succ k ih =>
      obtain ⟨hsound, hup, hdiag, hclear⟩ := ih (by omega)
      rw [List.range'_1_concat, List.foldl_append]
      obtain ⟨hsound', hup', hzero, hothers⟩ := clearBelow_spec (j := i + 1 + k) hsound hup hdiag (by omega) (by omega)
      refine ⟨hsound', hup', ?_, fun r hr hlt => ?_⟩
      · exact (hothers i (by omega)).trans hdiag
      · by_cases hlast : r = i + 1 + k
        · rw [hlast]; exact hzero
        · exact (hothers r hlast).trans (hclear r hr (by omega))

theorem forwardColumn_spec (h : Sound g n mat a) (hupper : Upper n i a.mat) (hi : i < n) :
    ∃ a', forwardColumn g n a i = some a' ∧ Sound g n mat a' ∧ Upper n (i + 1) a'.mat := by
  obtain ⟨p, hpivot, hsound, hup, hne⟩ := pivotRow_spec h hupper hi
  obtain ⟨hsound, hup, hone⟩ := normalizeRow_spec hsound hup hi hne
  obtain ⟨hsound, hup, hone, hclear⟩ := clearBelow_foldl hsound hup hone (n - (i + 1)) (by omega)
  refine ⟨_, by rw [forwardColumn, hpivot]; rfl, hsound, fun c hc => ?_⟩
  rcases Nat.lt_succ_iff_lt_or_eq.mp hc with hlt | rfl
  · exact hup c hlt
  · exact ⟨hone, fun r hr hcr => hclear r hcr (by omega)⟩

theorem forward_spec (h : Regular n (ofRows g mat)) :
    ∀ k ≤ n, ∃ a', (List.range k).foldlM (forwardColumn g n) ⟨mat, fun i j => if i = j then 1 else 0⟩ = some a' ∧
      Sound g n mat a' ∧ Upper n k a'.mat := by
  intro k hk
  induction k with
  | zero => exact ⟨_, rfl, Sound.start h, fun c hc => absurd hc (Nat.not_lt_zero c)⟩
  | succ k ih =>
      obtain ⟨a', hrun, hsound, hup⟩ := ih (by omega)
      obtain ⟨a'', hstep, hsound, hup⟩ := forwardColumn_spec hsound hup (by omega)
      refine ⟨a'', ?_, hsound, hup⟩
      rw [List.range_succ, List.foldlM_append, hrun]
      simp [hstep]

/-! ## The second pass -/

omit [NeZero w] in
/-- Row `i` is that of the identity. -/
theorem unitRow (hupper : Upper n n a.mat) (hclear : Cleared n (i + 1) a.mat) (hi : i < n) :
    ∀ c < n, a.mat i c = if c = i then 1 else 0 := by
  intro c hc
  rcases Nat.lt_trichotomy c i with hlt | rfl | hgt
  · rw [if_neg (by omega)]
    exact (hupper c (by omega)).2 i hi hlt
  · rw [if_pos rfl]
    exact (hupper c hc).1
  · rw [if_neg (by omega)]
    exact hclear c hc (by omega) i hgt

theorem clearAbove_spec (h : Sound g n mat a) (hupper : Upper n n a.mat) (hclear : Cleared n (i + 1) a.mat)
    (hi : i < n) (hj : j < i) :
    let a' := clearAbove g i a j
    Sound g n mat a' ∧ Upper n n a'.mat ∧ Cleared n (i + 1) a'.mat ∧ a'.mat j i = 0 ∧
      ∀ r, r ≠ j → a'.mat r i = a.mat r i := by
  intro a'
  by_cases hzero : a.mat j i = 0
  · have ha' : a' = a := by simp only [a', clearAbove, hzero, ne_eq, not_true, if_false]
    rw [ha']
    exact ⟨h, hupper, hclear, hzero, fun _ _ => rfl⟩
  · have ha' : a' = ⟨fun r c => if r = j ∧ c = i then 0 else a.mat r c,
        fun r c => if r = j then a.inv j c ^^^ g.multiply w (a.mat j i) (a.inv i c) else a.inv r c⟩ := by
      simp only [a', clearAbove, ne_eq, hzero, not_false_iff, if_true]
    have hunit := unitRow hupper hclear hi
    -- setting the entry to zero adds a multiple of row `i`, which is a row of the identity
    have hmat : ∀ r < n, ∀ c < n, (GF.of (if r = j ∧ c = i then 0 else a.mat r c) : GF g w)
        = if r = j then ofRows g a.mat r c + GF.of (a.mat j i) * ofRows g a.mat i c else ofRows g a.mat r c := by
      intro r _ c hc
      by_cases hrj : r = j
      · subst hrj
        by_cases hci : c = i
        · subst hci
          simp only [ofRows, hunit c hc, if_true, and_self, GF.of_one, mul_one]
          exact (GF.add_self _).symm
        · simp only [ofRows, hunit c hc, hci, if_false, and_false, if_true, GF.of_zero, mul_zero, add_zero]
      · simp only [hrj, false_and, if_false, ofRows]
    have hinv : ∀ r < n, ∀ c < n,
        (GF.of (if r = j then a.inv j c ^^^ g.multiply w (a.mat j i) (a.inv i c) else a.inv r c) : GF g w)
        = if r = j then ofRows g a.inv r c + GF.of (a.mat j i) * ofRows g a.inv i c else ofRows g a.inv r c := by
      intro r _ c _
      by_cases hrj : r = j
      · subst hrj
        simp only [if_true]
        rfl
      · simp only [hrj, if_false, ofRows]
    rw [ha']
    refine ⟨⟨h.regular.add hi (by omega) _ hmat, fun x y hy => (h.solves x y hy).add hi _ hmat hinv⟩,
      fun c hc => ⟨?_, fun r hr hcr => ?_⟩, fun c hc hic r hr => ?_, ?_, fun r hr => ?_⟩
    all_goals dsimp only
    · rw [if_neg (by omega)]
      exact (hupper c hc).1
    · rw [if_neg (by omega)]
      exact (hupper c hc).2 r hr hcr
    · rw [if_neg (by omega)]
      exact hclear c hc hic r hr
    · rw [if_pos ⟨rfl, rfl⟩]
    · rw [if_neg (fun hrj => hr hrj.1)]

theorem clearAbove_foldl (h : Sound g n mat a) (hupper : Upper n n a.mat) (hclear : Cleared n (i + 1) a.mat)
    (hi : i < n) :
    ∀ k ≤ i,
      let a' := (List.range k).foldl (clearAbove g i) a
      Sound g n mat a' ∧ Upper n n a'.mat ∧ Cleared n (i + 1) a'.mat ∧ ∀ r < k, a'.mat r i = 0 := by
  intro k hk
  induction k with
  | zero => exact ⟨h, hupper, hclear, fun r hr => absurd hr (Nat.not_lt_zero r)⟩
  | succ k ih =>
      obtain ⟨hsound, hup, hcl, hzeros⟩ := ih (by omega)
      rw [List.range_succ, List.foldl_append]
      obtain ⟨hsound, hup, hcl, hzero, hothers⟩ := clearAbove_spec (j := k) hsound hup hcl hi (by omega)
      refine ⟨hsound, hup, hcl, fun r hr => ?_⟩
      by_cases hlast : r = k
      · rw [hlast]; exact hzero
      · exact (hothers r hlast).trans (hzeros r (by omega))

theorem backRow_spec (h : Sound g n mat a) (hupper : Upper n n a.mat) (hclear : Cleared n (i + 1) a.mat)
    (hi : i < n) :
    Sound g n mat (backRow g a i) ∧ Upper n n (backRow g a i).mat ∧ Cleared n i (backRow g a i).mat := by
  obtain ⟨hsound, hup, hcl, hzeros⟩ := clearAbove_foldl h hupper hclear hi i (Nat.le_refl i)
  refine ⟨hsound, hup, fun c hc hic r hr => ?_⟩
  rcases Nat.eq_or_lt_of_le hic with rfl | hlt
  · exact hzeros r hr
  · exact hcl c hc hlt r hr

theorem back_spec (h : Sound g n mat a) (hupper : Upper n n a.mat) :
    ∀ k ≤ n, Cleared n k a.mat →
      let a' := (List.range k).reverse.foldl (backRow g) a
      Sound g n mat a' ∧ Upper n n a'.mat ∧ Cleared n 0 a'.mat := by
  intro k
  induction k generalizing a with
  | zero => exact fun _ hclear => ⟨h, hupper, hclear⟩
  | succ k ih =>
      intro hk hclear
      rw [List.range_succ, List.reverse_append, List.reverse_singleton, List.singleton_append, List.foldl_cons]
      obtain ⟨hsound, hup, hcl⟩ := backRow_spec h hupper hclear (by omega)
      exact ih hsound hup (by omega) hcl

/-- A regular matrix is inverted: the result computes every `x` from `mat · x`. -/
theorem invertMatrix_spec (h : Regular n (ofRows g mat)) :
    ∃ inv, invertMatrix g mat n = some inv ∧ ∀ x y : Nat → GF g w,
      (∀ r < n, dot n (ofRows g mat r) x = y r) → ∀ r < n, x r = dot n (ofRows g inv r) y := by
  obtain ⟨a, hrun, hsound, hup⟩ := forward_spec h n (Nat.le_refl n)
  obtain ⟨hsound, hup, hclear⟩ := back_spec hsound hup n (Nat.le_refl n) fun c hc hnc => by omega
  refine ⟨_, by rw [invertMatrix, hrun]; rfl, fun x y hy r hr => ?_⟩
  rw [← hsound.solves x y hy r hr, dot_unit hr]
  intro c hc
  have hunit := unitRow hup (fun c hc _ => hclear c hc (by omega)) hr c hc
  simp only [ofRows, hunit]
  split_ifs <;> rfl

end Sddr.Erasure
