import Sddr.Erasure.Lemmas.RSCodec
import Sddr.Erasure.Lemmas.Vandermonde
import Sddr.Erasure.Shift

/-! # Shift multiplication is that of a field -/

namespace Sddr.Erasure

variable {w : Nat}

/-! ## Linear functions of words -/

/-- Linear over the bits. -/
def Linear (f : BitVec w → BitVec w) : Prop := ∀ a b, f (a ^^^ b) = f a ^^^ f b

theorem Linear.zero {f : BitVec w → BitVec w} (hf : Linear f) : f 0 = 0 := by
  have hself := hf 0 0
  rwa [xor_self_word, xor_self_word] at hself

theorem Linear.comp {f f' : BitVec w → BitVec w} (hf : Linear f) (hf' : Linear f') : Linear fun a => f (f' a) :=
  fun a b => (congrArg f (hf' a b)).trans (hf _ _)

theorem Linear.iterate {f : BitVec w → BitVec w} (hf : Linear f) : ∀ n, Linear f^[n]
  | 0 => fun _ _ => rfl
  | n + 1 => (hf.iterate n).comp hf

theorem getLsbD_xorSum (a : BitVec w) (n j : Nat) :
    (xorSum n fun i => if a.getLsbD i then 1#w <<< i else 0).getLsbD j = (decide (j < n) && a.getLsbD j) := by
  induction n with
  | zero => simp [xorSum]
  | succ n ih =>
      have hbit : (if a.getLsbD n then 1#w <<< n else 0).getLsbD j = (decide (j = n) && a.getLsbD j) := by
        rcases Nat.lt_trichotomy j n with hlt | rfl | hgt
        · split_ifs <;> simp [hlt, hlt.ne]
        · cases ha : a.getLsbD j with
          | false => simp
          | true => simp [BitVec.lt_of_getLsbD ha]
        · split_ifs <;> simp [hgt.ne', Nat.sub_ne_zero_of_lt hgt]
      rw [xorSum_succ, BitVec.getLsbD_xor, ih, hbit]
      rcases Nat.lt_trichotomy j n with hlt | rfl | hgt
      · simp [hlt, hlt.ne, Nat.lt_succ_of_lt hlt]
      · simp
      · simp [hgt.ne', Nat.not_lt.mpr hgt.le, Nat.not_lt.mpr (Nat.succ_le_of_lt hgt)]

/-- A word is the sum of the powers of two at its bits. -/
theorem xorSum_bits (a : BitVec w) : (xorSum w fun i => if a.getLsbD i then 1#w <<< i else 0) = a :=
  BitVec.eq_of_getLsbD_eq fun j hj => by rw [getLsbD_xorSum, decide_eq_true hj, Bool.true_and]

/-- What holds of the powers of two and is kept by sums holds of every word. -/
theorem word_induction {motive : BitVec w → Prop} (zero : motive 0) (xor : ∀ a b, motive a → motive b → motive (a ^^^ b))
    (power : ∀ i < w, motive (1#w <<< i)) (a : BitVec w) : motive a := by
  have hsum : ∀ n ≤ w, motive (xorSum n fun i => if a.getLsbD i then 1#w <<< i else 0) := by
    intro n hn
    induction n with
    | zero => exact zero
    | succ n ih =>
        rw [xorSum_succ]
        refine xor _ _ (ih (by omega)) ?_
        split_ifs
        · exact power n hn
        · exact zero
  have hall := hsum w (Nat.le_refl w)
  rwa [xorSum_bits] at hall

/-- Linear functions that agree on the powers of two are equal. -/
theorem linear_ext {f l : BitVec w → BitVec w} (hf : Linear f) (hl : Linear l)
    (h : ∀ i < w, f (1#w <<< i) = l (1#w <<< i)) (a : BitVec w) : f a = l a := by
  induction a using word_induction with
  | zero => rw [hf.zero, hl.zero]
  | xor a b ha hb => rw [hf, hl, ha, hb]
  | power i hi => exact h i hi

/-! ## Doubling -/

theorem linear_timesTwo : Linear (timesTwo (w := w)) := by
  intro a b
  have hsum : ∀ y : BitVec w, timesTwo y = (y <<< 1) ^^^ if y.msb then primPoly w else 0 := by
    intro y
    unfold timesTwo
    split_ifs
    · rfl
    · exact (xor_zero_word _).symm
  have hreduce : (if (a ^^^ b).msb then primPoly w else 0)
      = (if a.msb then primPoly w else 0) ^^^ if b.msb then primPoly w else 0 := by
    rw [BitVec.msb_xor]
    cases a.msb <;> cases b.msb <;> simp
  rw [hsum, hsum, hsum, hreduce, BitVec.shiftLeft_xor_distrib]
  ac_rfl

/-- The powers of two are the doubles of one. -/
theorem timesTwo_iterate_one (i : Nat) (hi : i < w) : timesTwo^[i] 1#w = 1#w <<< i := by
  induction i with
  | zero => exact (BitVec.shiftLeft_zero _).symm
  | succ i ih =>
      have hmsb : (1#w <<< i).msb = false := by
        rw [BitVec.msb_eq_getLsbD_last, BitVec.getLsbD_shiftLeft, BitVec.getLsbD_one]
        simp
        omega
      rw [Function.iterate_succ_apply', ih (by omega), timesTwo, hmsb, if_neg (Bool.false_ne_true),
        ← BitVec.shiftLeft_add]

/-! ## Multiplication -/

theorem shiftMultiply_eq (x y : BitVec w) :
    shiftMultiply x y = xorSum w fun i => if x.getLsbD i then timesTwo^[i] y else 0 := by
  have hfold : ∀ n, (List.range n).foldl (fun (s : BitVec w × BitVec w) i =>
      (if x.getLsbD i then s.1 ^^^ s.2 else s.1, timesTwo s.2)) (0, y)
        = (xorSum n fun i => if x.getLsbD i then timesTwo^[i] y else 0, timesTwo^[n] y) := by
    intro n
    induction n with
    | zero => rfl
    | succ n ih =>
        rw [List.range_succ, List.foldl_append, ih, xorSum_succ]
        simp only [List.foldl_cons, List.foldl_nil, Function.iterate_succ_apply']
        cases x.getLsbD n <;> simp
  rw [shiftMultiply, hfold]

theorem linear_shiftMultiply (x : BitVec w) : Linear (shiftMultiply x) := by
  intro a b
  rw [shiftMultiply_eq, shiftMultiply_eq, shiftMultiply_eq, xorSum_xor]
  refine xorSum_congr fun i _ => ?_
  split_ifs
  · exact linear_timesTwo.iterate i a b
  · exact (xor_self_word 0).symm

theorem linear_shiftMultiply_left (y : BitVec w) : Linear fun x => shiftMultiply x y := by
  intro a b
  dsimp only
  rw [shiftMultiply_eq, shiftMultiply_eq, shiftMultiply_eq, xorSum_xor]
  refine xorSum_congr fun i _ => ?_
  rw [BitVec.getLsbD_xor]
  cases a.getLsbD i <;> cases b.getLsbD i <;> simp

/-- Multiplying with a power of two is doubling. -/
theorem power_shiftMultiply {i : Nat} (hi : i < w) (y : BitVec w) : shiftMultiply (1#w <<< i) y = timesTwo^[i] y := by
  have hbit : ∀ j, (1#w <<< i).getLsbD j = decide (j = i) := by
    intro j
    rw [BitVec.getLsbD_shiftLeft, BitVec.getLsbD_one]
    by_cases hji : j = i
    · simp [hji, hi, Nat.lt_of_le_of_lt (Nat.zero_le i) hi]
    · simp [hji]
      omega
  have hsum : ∀ n, (xorSum n fun j => if (1#w <<< i).getLsbD j then timesTwo^[j] y else 0)
      = if i < n then timesTwo^[i] y else 0 := by
    intro n
    induction n with
    | zero => rfl
    | succ n ih =>
        rw [xorSum_succ, ih, hbit]
        rcases Nat.lt_trichotomy n i with hlt | rfl | hgt
        · simp [hlt.ne, Nat.not_lt.mpr hlt.le, Nat.not_lt.mpr (Nat.succ_le_of_lt hlt)]
        · simp
        · simp [hgt.ne', hgt, Nat.lt_succ_of_lt hgt]
  rw [shiftMultiply_eq, hsum, if_pos hi]

theorem shiftMultiply_comm (a b : BitVec w) : shiftMultiply a b = shiftMultiply b a := by
  refine linear_ext (linear_shiftMultiply_left b) (linear_shiftMultiply b) (fun i hi => ?_) a
  refine linear_ext (linear_shiftMultiply (1#w <<< i)) (linear_shiftMultiply_left _) (fun j hj => ?_) b
  rw [power_shiftMultiply hi, power_shiftMultiply hj, ← timesTwo_iterate_one j hj, ← timesTwo_iterate_one i hi,
    ← Function.iterate_add_apply, ← Function.iterate_add_apply, Nat.add_comm]

theorem shiftMultiply_timesTwo (x y : BitVec w) (n : Nat) :
    shiftMultiply x (timesTwo^[n] y) = timesTwo^[n] (shiftMultiply x y) := by
  refine linear_ext (linear_shiftMultiply_left _) ((linear_timesTwo.iterate n).comp (linear_shiftMultiply_left y))
    (fun i hi => ?_) x
  rw [power_shiftMultiply hi, power_shiftMultiply hi, ← Function.iterate_add_apply, ← Function.iterate_add_apply,
    Nat.add_comm]

theorem shiftMultiply_assoc (a b c : BitVec w) :
    shiftMultiply (shiftMultiply a b) c = shiftMultiply a (shiftMultiply b c) := by
  refine linear_ext ((linear_shiftMultiply_left c).comp (linear_shiftMultiply_left b))
    (linear_shiftMultiply_left (shiftMultiply b c)) (fun i hi => ?_) a
  rw [power_shiftMultiply hi, power_shiftMultiply hi, shiftMultiply_comm, shiftMultiply_timesTwo,
    shiftMultiply_comm c b]

theorem one_shiftMultiply [NeZero w] (x : BitVec w) : shiftMultiply 1 x = x := by
  have hpower := power_shiftMultiply (Nat.pos_of_neZero w) x
  rwa [BitVec.shiftLeft_zero] at hpower

theorem shiftMultiply_zero (x : BitVec w) : shiftMultiply x 0 = 0 := (linear_shiftMultiply x).zero

theorem zero_shiftMultiply (y : BitVec w) : shiftMultiply 0 y = 0 := (linear_shiftMultiply_left y).zero

instance : Std.Associative (@shiftMultiply w) := ⟨shiftMultiply_assoc⟩
instance : Std.Commutative (@shiftMultiply w) := ⟨shiftMultiply_comm⟩

/-! ## Squares -/

theorem linear_square : Linear (square (w := w)) := by
  intro a b
  have hcancel : ∀ x y z : BitVec w, (x ^^^ y) ^^^ (y ^^^ z) = x ^^^ z := by
    intro x y z
    rw [BitVec.xor_assoc, ← BitVec.xor_assoc y, BitVec.xor_self, BitVec.zero_xor]
  have hleft : ∀ y, shiftMultiply (a ^^^ b) y = shiftMultiply a y ^^^ shiftMultiply b y :=
    fun y => linear_shiftMultiply_left y a b
  rw [square, linear_shiftMultiply, hleft, hleft, shiftMultiply_comm b a, hcancel, square, square]

theorem square_multiply (x y : BitVec w) : square (shiftMultiply x y) = shiftMultiply (square x) (square y) := by
  unfold square
  ac_rfl

theorem square_one [NeZero w] : square (1 : BitVec w) = 1 := one_shiftMultiply 1

/-- The sum of the first `n` of `y`, its square, the square of that and so on. -/
def traceTo : Nat → BitVec w → BitVec w
  | 0, _ => 0
  | n + 1, y => y ^^^ square (traceTo n y)

def trace (y : BitVec w) : BitVec w := traceTo w y

theorem linear_traceTo : ∀ n, Linear (traceTo (w := w) n)
  | 0 => fun _ _ => (xor_self_word 0).symm
  | n + 1 => by
      intro a b
      rw [traceTo, linear_traceTo n, linear_square, traceTo, traceTo]
      ac_rfl

/-- What is its own square comes out of a trace. -/
theorem traceTo_multiply {e : BitVec w} (he : square e = e) (y : BitVec w) (n : Nat) :
    traceTo n (shiftMultiply e y) = shiftMultiply e (traceTo n y) := by
  induction n with
  | zero => exact (shiftMultiply_zero e).symm
  | succ n ih => rw [traceTo, ih, square_multiply, he, traceTo, linear_shiftMultiply]

/-! ## Widths -/

/-- What makes the words of a width a field, on the powers of two. -/
structure FieldWidth (w : Nat) : Prop where
  one_lt : 1 < w
  square_two : square^[w] 2#w = 2#w
  trace_power : ∀ i < w, trace (1#w <<< i) = 0 ∨ trace (1#w <<< i) = 1
  trace_one : ∃ i < w, trace (1#w <<< i) = 1

namespace FieldWidth

theorem timesTwo_eq (h : FieldWidth w) (y : BitVec w) : timesTwo y = shiftMultiply 2#w y := by
  have htwo : 1#w <<< 1 = 2#w := by
    apply BitVec.eq_of_toNat_eq
    simp [Nat.shiftLeft_eq]
  rw [← htwo, power_shiftMultiply h.one_lt]
  rfl

theorem square_iterate (h : FieldWidth w) (a : BitVec w) : square^[w] a = a := by
  have : NeZero w := ⟨by have := h.one_lt; omega⟩
  have hmultiply : ∀ n (x y : BitVec w), square^[n] (shiftMultiply x y) = shiftMultiply (square^[n] x) (square^[n] y) := by
    intro n x y
    induction n with
    | zero => rfl
    | succ n ih => simp only [Function.iterate_succ_apply', ih, square_multiply]
  have hpower : ∀ i, square^[w] (timesTwo^[i] 1#w) = timesTwo^[i] 1#w := by
    intro i
    induction i with
    | zero => exact Function.iterate_fixed square_one w
    | succ i ih => rw [Function.iterate_succ_apply', h.timesTwo_eq, hmultiply, h.square_two, ih]
  refine linear_ext (linear_square.iterate w) (l := id) (fun _ _ => rfl) (fun i hi => ?_) a
  rw [← timesTwo_iterate_one i hi]
  exact hpower i

theorem trace_eq (h : FieldWidth w) (a : BitVec w) : trace a = 0 ∨ trace a = 1 := by
  induction a using word_induction with
  | zero => exact Or.inl (linear_traceTo w).zero
  | xor a b ha hb =>
      have hsum : trace (a ^^^ b) = trace a ^^^ trace b := linear_traceTo w a b
      rw [hsum]
      rcases ha with ha | ha <;> rcases hb with hb | hb <;> simp [ha, hb]
  | power i hi => exact h.trace_power i hi

/-- With a nontrivial one the trace would have further values. -/
theorem idempotent (h : FieldWidth w) {e : BitVec w} (he : square e = e) : e = 0 ∨ e = 1 := by
  have : NeZero w := ⟨by have := h.one_lt; omega⟩
  obtain ⟨i, _, hone⟩ := h.trace_one
  have htrace : trace (shiftMultiply e (1#w <<< i)) = e := by
    calc trace (shiftMultiply e (1#w <<< i)) = shiftMultiply e (trace (1#w <<< i)) := traceTo_multiply he _ w
      _ = shiftMultiply 1 e := by rw [hone, shiftMultiply_comm]
      _ = e := one_shiftMultiply e
  rw [← htrace]
  exact h.trace_eq _

/-- The product of the powers `2`, `4` and so on of `b`. -/
def powers (b : BitVec w) : Nat → BitVec w
  | 0 => 1
  | n + 1 => shiftMultiply (powers b n) (square^[n + 1] b)

theorem foldl_powers (b : BitVec w) (n : Nat) :
    (List.range n).foldl (fun power i => shiftMultiply power (square^[i + 1] b)) 1 = powers b n := by
  induction n with
  | zero => rfl
  | succ n ih => rw [List.range_succ, List.foldl_append, ih, List.foldl_cons, List.foldl_nil, powers]

theorem square_powers [NeZero w] (b : BitVec w) (n : Nat) :
    shiftMultiply (square (powers b n)) (square b) = powers b (n + 1) := by
  induction n with
  | zero => rw [powers, square_one, powers, powers, Function.iterate_one]
  | succ n ih =>
      rw [powers, square_multiply, ← Function.iterate_succ_apply' square, powers, ← ih]
      ac_rfl

theorem powers_multiply [NeZero w] (b : BitVec w) (n : Nat) :
    shiftMultiply (shiftMultiply (powers b n) b) b = square^[n + 1] b := by
  induction n with
  | zero => rw [powers, one_shiftMultiply]; rfl
  | succ n ih =>
      calc _ = shiftMultiply (shiftMultiply (shiftMultiply (powers b n) b) b) (square^[n + 1] b) := by
            rw [powers]
            ac_rfl
        _ = square^[n + 1 + 1] b := by rw [ih, ← square, ← Function.iterate_succ_apply' square]

/-- The power `2 ^ w - 1` of `b` is its own square, so it is zero or one; were it zero, so were `b`. -/
theorem shiftInverse_multiply (h : FieldWidth w) {b : BitVec w} (hb : b ≠ 0) :
    shiftMultiply (shiftInverse b) b = 1 := by
  obtain ⟨n, rfl⟩ : ∃ n, w = n + 1 := ⟨w - 1, by have := h.one_lt; omega⟩
  have hinverse : shiftInverse b = powers b n := foldl_powers b n
  have hfixed : square (shiftMultiply (shiftInverse b) b) = shiftMultiply (shiftInverse b) b := by
    rw [square_multiply, hinverse, square_powers, powers, h.square_iterate]
  rcases h.idempotent hfixed with hzero | hone
  · refine absurd ?_ hb
    have hagain := powers_multiply b n
    rw [h.square_iterate, ← hinverse, hzero, zero_shiftMultiply] at hagain
    exact hagain.symm
  · exact hone

theorem isField (h : FieldWidth w) : galoisShift.IsField w where
  multiply_assoc := shiftMultiply_assoc
  multiply_comm := shiftMultiply_comm
  one_multiply a := by
    have : NeZero w := ⟨by have := h.one_lt; omega⟩
    exact one_shiftMultiply a
  multiply_xor := linear_shiftMultiply
  divide_multiply a b hb := by
    have : NeZero w := ⟨by have := h.one_lt; omega⟩
    exact (shiftMultiply_assoc a _ b).trans (by rw [h.shiftInverse_multiply hb, shiftMultiply_comm, one_shiftMultiply])

end FieldWidth

theorem fieldWidth_8 : FieldWidth 8 :=
  ⟨by decide, by decide +kernel, by decide +kernel, 5, by decide, by decide +kernel⟩

theorem fieldWidth_16 : FieldWidth 16 :=
  ⟨by decide, by decide +kernel, by decide +kernel, 15, by decide, by decide +kernel⟩

theorem fieldWidth_32 : FieldWidth 32 :=
  ⟨by decide, by decide +kernel, by decide +kernel, 31, by decide, by decide +kernel⟩

/-- Symbols of every width can be coded, as long as there are no more than a byte can number. -/
theorem codable_galoisShift {K M : Nat} (hK : 0 < K) (hM : 0 < M) (hsize : K + M ≤ 256) (W : Nat) :
    Codable galoisShift K M W := by
  have hwidth : ∀ w ∈ partWidths W, FieldWidth (8 * w) := by
    intro w hw
    rcases mem_partWidths hw with rfl | rfl | rfl
    · exact fieldWidth_32
    · exact fieldWidth_16
    · exact fieldWidth_8
  intro w hw
  have hfield := (hwidth w hw).isField
  have : Fact (galoisShift.IsField (8 * w)) := ⟨hfield⟩
  have : NeZero (8 * w) := ⟨by have := (hwidth w hw).one_lt; omega⟩
  have hpow : 2 ^ 8 ≤ 2 ^ (8 * w) := Nat.pow_le_pow_right (by decide) (by have := (hwidth w hw).one_lt; omega)
  exact ⟨hfield, vandermondeCodingMatrix_mds hK hM (hsize.trans hpow)⟩

end Sddr.Erasure
