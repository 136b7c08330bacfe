import Sddr.Lib.Bits

/-!
# Arrays of bytes

Reading or writing a byte outside of an array has no result.
-/

namespace Sddr.Lib

variable {α : Type}

/-- The `n` elements from position `pos` on. -/
def slice (source : List α) (pos n : Nat) : Option (List α) :=
  if pos + n ≤ source.length then some ((source.drop pos).take n) else none

/-- Stores `elements` from position `pos` on. -/
def splice (dest : List α) (pos : Nat) (elements : List α) : Option (List α) :=
  if pos + elements.length ≤ dest.length then
    some (dest.take pos ++ elements ++ dest.drop (pos + elements.length))
  else none

/-- `resize(n)` of a vector. -/
def resize [Inhabited α] (v : List α) (n : Nat) : List α := v.take n ++ List.replicate (n - v.length) default

theorem slice_append (done mid rest : List α) : slice (done ++ (mid ++ rest)) done.length mid.length = some mid := by
  rw [slice, if_pos (by simp only [List.length_append]; omega), List.drop_left, List.take_left]

theorem splice_append (done rest elements : List α) (h : elements.length ≤ rest.length) :
    splice (done ++ rest) done.length elements = some (done ++ elements ++ rest.drop elements.length) := by
  rw [splice, if_pos (by simp only [List.length_append]; omega), List.take_left, List.drop_append,
    List.drop_eq_nil_of_le (Nat.le_add_right _ _), List.nil_append, Nat.add_sub_cancel_left]

theorem splice_nil {dest : List α} {pos : Nat} (h : pos ≤ dest.length) : splice dest pos [] = some dest := by
  rw [splice, List.length_nil, Nat.add_zero, if_pos h, List.append_nil, List.take_append_drop]

theorem splice_singleton (dest : List α) (pos : Nat) (element : α) :
    splice dest pos [element] = if pos < dest.length then some (dest.set pos element) else none := by
  unfold splice
  split_ifs with hfits hroom hroom
  · rw [List.length_singleton, List.append_assoc, List.singleton_append, List.set_eq_take_append_cons_drop,
      if_pos hroom]
  · exact absurd hfits hroom
  · exact absurd hroom hfits
  · rfl

theorem splice_eq_some {dest dest' elements : List α} {pos : Nat} (h : splice dest pos elements = some dest') :
    pos + elements.length ≤ dest.length ∧ dest' = dest.take pos ++ elements ++ dest.drop (pos + elements.length) := by
  unfold splice at h
  split_ifs at h with hfits
  exact ⟨hfits, (Option.some.inj h).symm⟩

theorem length_splice {dest dest' elements : List α} {pos : Nat} (h : splice dest pos elements = some dest') :
    dest'.length = dest.length := by
  obtain ⟨hfits, rfl⟩ := splice_eq_some h
  simp only [List.length_append, List.length_take, List.length_drop]
  omega

/-- Elements are stored one part after the other. -/
theorem splice_splice (dest first second : List α) (pos : Nat) :
    ((splice dest pos first).bind fun dest => splice dest (pos + first.length) second)
      = splice dest pos (first ++ second) := by
  by_cases hfirst : pos + first.length ≤ dest.length
  · have htake : (dest.take pos ++ first).length = pos + first.length := by
      rw [List.length_append, List.length_take, Nat.min_eq_left (Nat.le_of_add_right_le hfirst)]
    rw [splice, if_pos hfirst, Option.bind_some, ← htake, splice, splice]
    simp only [List.length_append, List.length_drop, htake]
    split_ifs with hall hboth hboth
    · rw [← htake, List.take_left, List.drop_append, List.drop_eq_nil_of_le (Nat.le_add_right _ _), List.nil_append,
        Nat.add_sub_cancel_left, List.drop_drop, htake, Nat.add_assoc]
      simp only [List.append_assoc]
    · omega
    · omega
    · rfl
  · rw [splice, if_neg hfirst, splice, if_neg (by rw [List.length_append]; omega)]
    rfl

@[simp] theorem length_resize [Inhabited α] (v : List α) (n : Nat) : (resize v n).length = n := by
  rw [resize, List.length_append, List.length_take, List.length_replicate]
  omega

/-! ## Numbers as bytes -/

/-- The `k` bytes of `n`, lowest first. -/
def littleEndian : Nat → Nat → List Byte
  | 0, _ => []
  | k + 1, n => BitVec.ofNat 8 n :: littleEndian k (n / 256)

def ofLittleEndian : List Byte → Nat
  | [] => 0
  | b :: bytes => b.toNat + 256 * ofLittleEndian bytes

@[simp] theorem length_littleEndian (k n : Nat) : (littleEndian k n).length = k := by
  induction k generalizing n with
  | zero => rfl
  | succ k ih => rw [littleEndian, List.length_cons, ih]

theorem ofLittleEndian_littleEndian {k n : Nat} (h : n < 256 ^ k) : ofLittleEndian (littleEndian k n) = n := by
  induction k generalizing n with
  | zero =>
      obtain rfl : n = 0 := by omega
      rfl
  | succ k ih =>
      have hrest : n / 256 < 256 ^ k := by
        rw [Nat.div_lt_iff_lt_mul (by decide), ← Nat.pow_succ]
        exact h
      rw [littleEndian, ofLittleEndian, ih hrest, BitVec.toNat_ofNat]
      exact Nat.mod_add_div n 256

theorem littleEndian_eq_map (k n : Nat) :
    littleEndian k n = (List.range k).map fun i => BitVec.ofNat 8 (n / 256 ^ i) := by
  induction k generalizing n with
  | zero => rfl
  | succ k ih =>
      rw [littleEndian, ih, List.range_succ_eq_map, List.map_cons, List.map_map, Nat.pow_zero, Nat.div_one]
      refine congrArg₂ _ rfl (List.map_congr_left fun i _ => ?_)
      rw [Function.comp_apply, Nat.pow_succ', Nat.div_div_eq_div_mul]

theorem ofLittleEndian_append (bytes bytes' : List Byte) :
    ofLittleEndian (bytes ++ bytes') = ofLittleEndian bytes + 256 ^ bytes.length * ofLittleEndian bytes' := by
  induction bytes with
  | nil => rw [List.nil_append, ofLittleEndian, List.length_nil, Nat.pow_zero, Nat.one_mul, Nat.zero_add]
  | cons b bytes ih =>
      rw [List.cons_append, ofLittleEndian, ofLittleEndian, ih, List.length_cons, Nat.mul_add, Nat.pow_succ',
        Nat.mul_assoc, Nat.add_assoc]

theorem ofLittleEndian_lt (bytes : List Byte) : ofLittleEndian bytes < 256 ^ bytes.length := by
  induction bytes with
  | nil => exact Nat.one_pos
  | cons b bytes ih =>
      have hb := b.isLt
      rw [ofLittleEndian, List.length_cons, Nat.pow_succ]
      omega

theorem ofLittleEndian_zeros (n : Nat) : ofLittleEndian (List.replicate n 0) = 0 := by
  induction n with
  | zero => rfl
  | succ n ih => rw [List.replicate_succ, ofLittleEndian, ih]; rfl

/-! ## Words -/

/-- The low 64 bits of the number. -/
def word64 (bytes : List Byte) : BitVec 64 := BitVec.ofNat 64 (ofLittleEndian bytes)

theorem word64_zeros (bytes : List Byte) (n : Nat) : word64 (bytes ++ List.replicate n 0) = word64 bytes := by
  rw [word64, ofLittleEndian_append, ofLittleEndian_zeros, Nat.mul_zero, Nat.add_zero, word64]

theorem word64_littleEndian (v : BitVec 64) : word64 (littleEndian 8 v.toNat) = v := by
  rw [word64, ofLittleEndian_littleEndian v.isLt, BitVec.ofNat_toNat, BitVec.setWidth_eq]

theorem word64_concat (bytes : List Byte) (b : Byte) :
    word64 (bytes ++ [b]) = word64 bytes ||| b.setWidth 64 <<< (bytes.length * 8) := by
  have hpow : 256 ^ bytes.length = 2 ^ (bytes.length * 8) := by rw [Nat.mul_comm, Nat.pow_mul]
  have hvalue : ofLittleEndian (bytes ++ [b]) = b.toNat <<< (bytes.length * 8) ||| ofLittleEndian bytes := by
    rw [ofLittleEndian_append, ofLittleEndian, ofLittleEndian, Nat.mul_zero, Nat.add_zero, hpow, Nat.add_comm,
      Nat.two_pow_add_eq_or_of_lt (hpow ▸ ofLittleEndian_lt bytes), Nat.shiftLeft_eq, Nat.mul_comm]
  have hshift : BitVec.ofNat 64 (b.toNat <<< (bytes.length * 8)) = b.setWidth 64 <<< (bytes.length * 8) := by
    apply BitVec.eq_of_toNat_eq
    rw [BitVec.toNat_ofNat, BitVec.toNat_shiftLeft, BitVec.toNat_setWidth,
      Nat.mod_eq_of_lt (Nat.lt_trans b.isLt (by decide))]
  rw [word64, hvalue, BitVec.ofNat_or, hshift, BitVec.or_comm, word64]

/-- A loop that shifts each byte to its place. -/
theorem foldl_word64 (m : Mem) (n : Nat) :
    (List.range n).foldl (fun word i => word ||| (m i).setWidth 64 <<< (i * 8)) 0 = word64 (m.take n) := by
  induction n with
  | zero => rfl
  | succ n ih =>
      have htake : m.take (n + 1) = m.take n ++ [m n] := by rw [Mem.take_add]; rfl
      rw [List.range_succ, List.foldl_append, ih, htake, word64_concat, Mem.length_take]
      rfl

end Sddr.Lib
