import Mathlib.Algebra.Ring.Nat
import Mathlib.Logic.Function.Basic
import Mathlib.Data.List.Basic

/-!
# Bytes in memory and their bits

A pointer is the memory from its address on, so pointer arithmetic is a shift of the index and a read past
the end of an array yields whatever the memory holds there. Bit `j` is position `j % 8` of byte `j / 8`.
-/

namespace Sddr.Lib

abbrev Byte := BitVec 8

abbrev Mem := Nat → Byte

namespace Mem

variable {m m' : Mem}

def bit (m : Mem) (j : Nat) : Bool := (m (j / 8)).getLsbD (j % 8)

def store (m : Mem) (i : Nat) (b : Byte) : Mem := fun k => if k = i then b else m k

def add (m : Mem) (n : Nat) : Mem := fun i => m (n + i)

def take (m : Mem) (n : Nat) : List Byte := (List.range n).map m

/-- The memory of an array. Nothing the code reads depends on what lies past its end. -/
def ofList (l : List Byte) : Mem := fun i => l.getD i 0

/-- `memcpy` of the first `n` bytes of `source`. -/
def copy (m source : Mem) (n : Nat) : Mem := fun i => if i < n then source i else m i

@[simp] theorem add_zero (m : Mem) : m.add 0 = m := funext fun i => congrArg m (Nat.zero_add i)

@[simp] theorem add_add (m : Mem) (n n' : Nat) : (m.add n).add n' = m.add (n + n') :=
  funext fun i => congrArg m (Nat.add_assoc n n' i).symm

/-- A loop that stores one byte after the other. -/
theorem foldl_store (m source : Mem) (n : Nat) :
    (List.range n).foldl (fun m i => m.store i (source i)) m = m.copy source n := by
  induction n with
  | zero => rfl
  | succ n ih =>
      rw [List.range_succ, List.foldl_append, ih]
      funext i
      simp only [List.foldl_cons, List.foldl_nil, store, copy]
      split_ifs with heq hlt hlt hlt'
      · rw [heq]
      · omega
      · rfl
      · omega
      · omega
      · rfl

/-! ## Bits -/

theorem bit_mul_add (m : Mem) (i : Nat) {k : Nat} (hk : k < 8) : m.bit (8 * i + k) = (m i).getLsbD k := by
  have h1 : (8 * i + k) / 8 = i := by omega
  have h2 : (8 * i + k) % 8 = k := by omega
  rw [bit, h1, h2]

theorem bit_store (m : Mem) (i : Nat) (b : Byte) (j : Nat) :
    (m.store i b).bit j = if j / 8 = i then b.getLsbD (j % 8) else m.bit j := by
  unfold bit store
  split_ifs <;> rfl

theorem bit_add (m : Mem) (n j : Nat) : (m.add n).bit j = m.bit (8 * n + j) := by
  have h1 : (8 * n + j) / 8 = n + j / 8 := by omega
  have h2 : (8 * n + j) % 8 = j % 8 := by omega
  rw [bit, bit, add, h1, h2]

theorem bit_copy (m source : Mem) {n j : Nat} (hj : j < 8 * n) : (m.copy source n).bit j = source.bit j := by
  have : j / 8 < n := by omega
  simp [bit, copy, this]

@[simp] theorem bit_zero (j : Nat) : bit (fun _ => 0) j = false := by simp [bit]

theorem byte_ext {i : Nat} (h : ∀ k < 8, m.bit (8 * i + k) = m'.bit (8 * i + k)) : m i = m' i := by
  apply BitVec.eq_of_getLsbD_eq
  intro k hk
  rw [← bit_mul_add m i hk, ← bit_mul_add m' i hk]
  exact h k hk

/-! ## Prefixes -/

@[simp] theorem length_take (m : Mem) (n : Nat) : (m.take n).length = n := by simp [take]

theorem take_congr {n : Nat} (h : ∀ i < n, m i = m' i) : m.take n = m'.take n :=
  List.map_congr_left fun i hi => h i (List.mem_range.mp hi)

theorem take_copy (m source : Mem) (n : Nat) : (m.copy source n).take n = source.take n :=
  take_congr fun _ hi => if_pos hi

theorem take_succ (m : Mem) (n : Nat) : m.take (n + 1) = m 0 :: (m.add 1).take n := by
  simp [take, add, List.range_succ_eq_map, Nat.add_comm, Function.comp_def]

theorem take_add (m : Mem) (n n' : Nat) : m.take (n + n') = m.take n ++ (m.add n).take n' := by
  rw [take, List.range_add, List.map_append, List.map_map]
  rfl

/-- Two memories with the same first `8 * n` bits have the same first `n` bytes. -/
theorem take_eq_of_bits {n : Nat} (h : ∀ j < 8 * n, m.bit j = m'.bit j) : m.take n = m'.take n :=
  take_congr fun i hi => byte_ext fun k hk => h _ (by omega)

theorem take_getD {n i : Nat} (hi : i < n) (d : Byte) : (m.take n).getD i d = m i := by
  simp [take, List.getD_eq_getElem?_getD, hi]

theorem ofList_take {n i : Nat} (hi : i < n) : ofList (m.take n) i = m i := take_getD hi _

theorem take_ofList (l : List Byte) : (ofList l).take l.length = l := by
  apply List.ext_getElem (by simp)
  intro i h1 h2
  simp [take, ofList, h2]

theorem bit_ofList_take {n j : Nat} (hj : j < 8 * n) : (ofList (m.take n)).bit j = m.bit j := by
  rw [bit, bit, ofList_take (by omega)]

end Mem

/-! ## Numbers written bit by bit -/

/-- The number whose bits `0 .. n-1` are `f 0 .. f (n-1)`, as a loop `if (f b) x |= 1 << b` builds it. -/
def natOfBits (f : Nat → Bool) : Nat → Nat
  | 0 => 0
  | n + 1 => if f n then natOfBits f n ||| (1 <<< n) else natOfBits f n

theorem testBit_natOfBits (f : Nat → Bool) (n i : Nat) :
    (natOfBits f n).testBit i = (decide (i < n) && f i) := by
  induction n with
  | zero => simp [natOfBits]
  | succ n ih =>
      have hshift : (1 <<< n).testBit i = decide (n = i) := by
        rw [Nat.one_shiftLeft, Nat.testBit_two_pow]
      by_cases hin : i = n
      · subst hin
        cases hf : f i <;> simp [natOfBits, hf, ih]
      · have hlt : (i < n + 1) = (i < n) := by rw [eq_iff_iff]; omega
        cases hf : f n
        · simp [natOfBits, hf, ih, hlt]
        · simp [natOfBits, hf, ih, hlt, hshift, Ne.symm hin]

/-- Reading back the low `n` bits of a number below `2 ^ n` gives the number. -/
theorem natOfBits_testBit {x n : Nat} (hx : x < 2 ^ n) {f : Nat → Bool}
    (hf : ∀ i < n, f i = x.testBit i) : natOfBits f n = x := by
  apply Nat.eq_of_testBit_eq
  intro i
  rw [testBit_natOfBits]
  by_cases hi : i < n
  · simp [hi, hf i hi]
  · have : x.testBit i = false :=
      Nat.testBit_lt_two_pow (Nat.lt_of_lt_of_le hx (Nat.pow_le_pow_right (by omega) (by omega)))
    simp [hi, this]

end Sddr.Lib
