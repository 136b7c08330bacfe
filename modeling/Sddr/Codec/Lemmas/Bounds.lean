import Sddr.Codec.Bounds
import Sddr.Codec.Lemmas.BitMap

/-!
# Where bitcpy reads and writes

On arrays that are long enough `bitcpyIn` is `bitcpy`. Each part of it says how long that is.
-/

namespace Sddr.Codec
open Sddr.Lib

variable {dest source : Mem} {destPos sourcePos off amount m n : Nat}

/-- The last byte of the source that `sourceBits` reads. -/
def lastRead (sourcePos off amount : Nat) : Nat := if amount ≤ 8 - off then sourcePos else sourcePos + 1

theorem getElem?_take (m : Mem) (n i : Nat) : (m.take n)[i]? = if i < n then some (m i) else none := by
  split_ifs with hi
  · simp [Mem.take, hi]
  · simpa using hi

theorem set_take (m : Mem) (n i : Nat) (b : Byte) : (m.take n).set i b = (m.store i b).take n := by
  apply List.ext_getElem?
  intro k
  rw [List.getElem?_set, getElem?_take, getElem?_take, Mem.length_take, Mem.store]
  by_cases hk : i = k
  · simp [hk]
  · simp [hk, Ne.symm hk]

theorem twoBytesIn_take (source : Mem) (sourcePos off n : Nat) :
    twoBytesIn (source.take n) sourcePos off = if sourcePos + 1 < n then some (twoBytes source sourcePos off) else none := by
  rw [twoBytesIn, getElem?_take, getElem?_take]
  by_cases hn : sourcePos + 1 < n
  · rw [if_pos hn, if_pos hn, if_pos (Nat.lt_of_succ_lt hn)]
    rfl
  · rw [if_neg hn, if_neg hn]
    split_ifs <;> rfl

theorem sourceBitsIn_take (source : Mem) (sourcePos off amount n : Nat) :
    sourceBitsIn (source.take n) sourcePos off amount
      = if lastRead sourcePos off amount < n then some (sourceBits source sourcePos off amount) else none := by
  unfold sourceBitsIn sourceBits lastRead
  split_ifs with hfit hn hn
  · rw [getElem?_take, if_pos hn]
    rfl
  · rw [getElem?_take, if_neg hn]
    rfl
  · rw [twoBytesIn_take, if_pos hn]
  · rw [twoBytesIn_take, if_neg hn]

theorem bitcpyStartIn_take (destBitOffset : Nat) :
    bitcpyStartIn (dest.take m) destPos destBitOffset (source.take n) sourcePos off amount
      = if destPos < m ∧ lastRead sourcePos off amount < n then
          some ((bitcpyStart dest destPos destBitOffset source sourcePos off amount).take m)
        else none := by
  rw [bitcpyStartIn, getElem?_take, sourceBitsIn_take]
  by_cases hm : destPos < m
  · by_cases hn : lastRead sourcePos off amount < n
    · rw [if_pos hm, if_pos hn, if_pos ⟨hm, hn⟩, Option.bind_some, Option.map_some, set_take]
      rfl
    · have hboth : ¬ (destPos < m ∧ lastRead sourcePos off amount < n) := fun h => hn h.2
      rw [if_neg hboth, if_pos hm, if_neg hn]
      rfl
  · have hboth : ¬ (destPos < m ∧ lastRead sourcePos off amount < n) := fun h => hm h.1
    rw [if_neg hboth, if_neg hm]
    rfl

theorem bitcpyBodyIn_take (k : Nat) (dest : Mem) (destPos sourcePos : Nat) :
    bitcpyBodyIn (dest.take m) destPos (source.take n) sourcePos off k
      = if k = 0 ∨ (destPos + k ≤ m ∧ sourcePos + k < n) then
          some ((bitcpyBody dest destPos source sourcePos off k).take m)
        else none := by
  induction k generalizing dest destPos sourcePos with
  | zero => rfl
  | succ k ih =>
      rw [bitcpyBodyIn, twoBytesIn_take, Mem.length_take]
      by_cases hn : sourcePos + 1 < n
      · by_cases hm : destPos < m
        · rw [if_pos hn, Option.bind_some, if_pos hm, set_take, ih]
          have hrest : (k = 0 ∨ destPos + 1 + k ≤ m ∧ sourcePos + 1 + k < n)
              ↔ (k + 1 = 0 ∨ destPos + (k + 1) ≤ m ∧ sourcePos + (k + 1) < n) := by omega
          simp only [hrest]
          rfl
        · rw [if_pos hn, Option.bind_some, if_neg hm, if_neg (by omega)]
      · rw [if_neg hn, if_neg (by omega)]
        rfl

theorem bitcpyEndIn_take (length : Nat) :
    bitcpyEndIn (dest.take m) destPos (source.take n) sourcePos off length
      = if length = 0 ∨ (destPos < m ∧ lastRead sourcePos off length < n) then
          some ((bitcpyEnd dest destPos source sourcePos off length).take m)
        else none := by
  unfold bitcpyEndIn bitcpyEnd
  by_cases hzero : length = 0
  · rw [if_neg (not_not_intro hzero), if_pos (Or.inl hzero), if_neg (not_not_intro hzero)]
  · rw [if_pos hzero, if_pos hzero, getElem?_take, sourceBitsIn_take]
    by_cases hm : destPos < m
    · by_cases hn : lastRead sourcePos off length < n
      · rw [if_pos hm, if_pos hn, if_pos (Or.inr ⟨hm, hn⟩), Option.bind_some, Option.map_some, set_take]
      · have hend : ¬ (length = 0 ∨ destPos < m ∧ lastRead sourcePos off length < n) := by tauto
        rw [if_neg hend, if_pos hm, if_neg hn]
        rfl
    · have hend : ¬ (length = 0 ∨ destPos < m ∧ lastRead sourcePos off length < n) := by tauto
      rw [if_neg hend, if_neg hm]
      rfl

theorem bitcpyAlignedIn_take (length : Nat) :
    bitcpyAlignedIn (dest.take m) destPos (source.take n) sourcePos off length
      = if (length / 8 = 0 ∨ (destPos + length / 8 ≤ m ∧ sourcePos + length / 8 < n)) ∧
            (length % 8 = 0 ∨ (destPos + length / 8 < m ∧ lastRead (sourcePos + length / 8) off (length % 8) < n)) then
          some ((bitcpyAligned dest destPos source sourcePos off length).take m)
        else none := by
  rw [bitcpyAlignedIn, bitcpyBodyIn_take]
  split_ifs with hbody hboth hboth
  · rw [Option.bind_some, bitcpyEndIn_take, if_pos hboth.2]
    rfl
  · rw [Option.bind_some, bitcpyEndIn_take, if_neg fun hend => hboth ⟨hbody, hend⟩]
  · exact absurd hboth.1 hbody
  · rfl

/-- On arrays that hold just the bits that are copied. -/
theorem bitcpyIn_take (dest source : Mem) (destOffset sourceOffset : Nat) {length : Nat} (hlength : 0 < length) :
    bitcpyIn (dest.take ((destOffset + length + 7) / 8)) destOffset (source.take ((sourceOffset + length + 7) / 8))
        sourceOffset length
      = if Overreads destOffset sourceOffset length then none
        else some ((bitcpy dest destOffset source sourceOffset length).take ((destOffset + length + 7) / 8)) := by
  unfold bitcpyIn bitcpy
  dsimp only
  by_cases haligned : destOffset % 8 = 0
  · rw [if_neg (not_not_intro haligned), if_neg (not_not_intro haligned), bitcpyAlignedIn_take, ← ite_not]
    congr 1
    unfold Overreads lastRead
    split_ifs <;> (rw [eq_iff_iff]; omega)
  · rw [if_pos haligned, if_pos haligned]
    generalize hamount : min (8 - destOffset % 8) length = amount
    have hstart : destOffset / 8 < (destOffset + length + 7) / 8 ∧
        lastRead (sourceOffset / 8) (sourceOffset % 8) amount < (sourceOffset + length + 7) / 8 := by
      unfold lastRead
      split_ifs <;> omega
    rw [bitcpyStartIn_take, if_pos hstart, Option.bind_some, bitcpyAlignedIn_take, ← ite_not]
    congr 1
    unfold Overreads lastRead
    split_ifs <;> (rw [eq_iff_iff]; omega)

end Sddr.Codec
