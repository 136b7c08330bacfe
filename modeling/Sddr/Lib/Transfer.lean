import Mathlib.Data.BitVec
import Sddr.Lib.Bits

/-!
# Transfers in parts

A call of `read` or `write` moves some of the bytes it is asked for, or fails. A loop around it moves what is left.
-/

namespace Sddr.Lib

/-- What the other side of a socket lets through: some bytes, none at the end of its stream, or an error. -/
inductive Offer where
  | bytes (n : Nat)
  | error
  deriving DecidableEq

namespace Offer

/-- The result of `read` or `write` for `count` bytes, as an `ssize_t`. -/
def result (count : Nat) : Offer → Int
  | bytes n => (min n count : Nat)
  | error => -1

/-- The number of bytes that are let through. -/
def amount : Offer → Nat
  | bytes n => n
  | error => 0

theorem toNat_result (offer : Offer) (count : Nat) : (offer.result count).toNat = min offer.amount count := by
  cases offer with
  | bytes n => rfl
  | error => exact (Nat.zero_min count).symm

theorem result_pos {offer : Offer} {count : Nat} (hcount : 0 < count) : 0 < offer.result count ↔ 0 < offer.amount := by
  cases offer with
  | bytes n =>
      rw [result, amount]
      omega
  | error => exact iff_of_false (Int.not_lt.mpr (Int.negSucc_lt_zero 0).le) (Nat.lt_irrefl 0)

end Offer

/-! ## Movers -/

/-- `move s pos n` moves `n` bytes from or to position `pos`. Moving them in two parts is the same. -/
structure Mover (σ : Type) where
  move : σ → Nat → Nat → σ
  move_zero : ∀ s pos, move s pos 0 = s
  move_move : ∀ s pos m n, move (move s pos m) (pos + m) n = move s pos (m + n)

/-- `memcpy` of the first `n` bytes of `source` to position `pos`. -/
def Mem.put (m : Mem) (pos : Nat) (source : Mem) (n : Nat) : Mem :=
  fun i => if pos ≤ i ∧ i < pos + n then source (i - pos) else m i

theorem Mem.put_zero_pos (m source : Mem) (n : Nat) : m.put 0 source n = m.copy source n := by
  funext i
  simp only [put, copy, Nat.zero_le, true_and, Nat.zero_add, Nat.sub_zero]

@[simp] theorem Mem.put_zero (m : Mem) (pos : Nat) (source : Mem) : m.put pos source 0 = m :=
  funext fun _ => if_neg (by omega)

/-- The bytes of a source are stored one part after the other. -/
theorem Mem.put_put (m : Mem) (pos : Nat) (source : Mem) (n n' : Nat) :
    (m.put pos source n).put (pos + n) (source.add n) n' = m.put pos source (n + n') := by
  funext i
  simp only [put, add]
  split_ifs
  · congr 1
    omega
  · omega
  · rfl
  · omega
  · omega
  · rfl

/-- What `read` changes: the bytes that are taken from the stream, and where they are stored. -/
structure Received where
  taken : Nat
  dest : Mem

def receiving (stream : Mem) : Mover Received where
  move s pos n := ⟨s.taken + n, s.dest.put pos (stream.add s.taken) n⟩
  move_zero s pos := by rw [Mem.put_zero, Nat.add_zero]
  move_move s pos m n := by rw [← Mem.add_add, Mem.put_put, Nat.add_assoc]

/-- From the start of the stream to the start of an array. -/
theorem receiving_all (stream dest : Mem) (n : Nat) :
    (receiving stream).move ⟨0, dest⟩ 0 n = ⟨n, dest.copy stream n⟩ := by
  simp only [receiving, Mem.add_zero, Mem.put_zero_pos, Nat.zero_add]

/-- What `write` appends to the stream. -/
def sending (message : Mem) : Mover (List Byte) where
  move s pos n := s ++ (message.add pos).take n
  move_zero s pos := List.append_nil s
  move_move s pos m n := by
    rw [List.append_assoc, Mem.take_add, Mem.add_add]

theorem sending_all (message : Mem) (written : List Byte) (n : Nat) :
    (sending message).move written 0 n = written ++ message.take n := by
  simp only [sending, Mem.add_zero]

end Sddr.Lib
