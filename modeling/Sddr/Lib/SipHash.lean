import Sddr.Lib.Bytes

/-!
# SipHash

SipHash-c-d: `c` rounds for each word of the message and `d` rounds at the end. The words are the message in
little-endian order, filled up with zeros and ended by the low byte of its length.
-/

namespace Sddr.Lib

theorem rotateLeft_eq_or (x : BitVec 64) {s : Nat} (h : s < 64) : x <<< s ||| x >>> (64 - s) = x.rotateLeft s := by
  rw [BitVec.rotateLeft_def, Nat.mod_eq_of_lt h]

structure SipState where
  v0 : BitVec 64
  v1 : BitVec 64
  v2 : BitVec 64
  v3 : BitVec 64
deriving DecidableEq

namespace SipState

def round (v : SipState) : SipState :=
  let v0 := v.v0 + v.v1
  let v2 := v.v2 + v.v3
  let v1 := v.v1.rotateLeft 13 ^^^ v0
  let v3 := v.v3.rotateLeft 16 ^^^ v2
  let v0' := v0.rotateLeft 32 + v3
  let v2' := v2 + v1
  { v0 := v0', v1 := v1.rotateLeft 17 ^^^ v2', v2 := v2'.rotateLeft 32, v3 := v3.rotateLeft 21 ^^^ v0' }

def rounds : Nat → SipState → SipState
  | 0, v => v
  | n + 1, v => rounds n v.round

def init (k0 k1 : BitVec 64) : SipState where
  v0 := k0 ^^^ 0x736f6d6570736575
  v1 := k1 ^^^ 0x646f72616e646f6d
  v2 := k0 ^^^ 0x6c7967656e657261
  v3 := k1 ^^^ 0x7465646279746573

def compress (c : Nat) (v : SipState) (m : BitVec 64) : SipState :=
  let v := rounds c { v with v3 := v.v3 ^^^ m }
  { v with v0 := v.v0 ^^^ m }

def finalize (d : Nat) (v : SipState) : BitVec 64 :=
  let v := rounds d { v with v2 := v.v2 ^^^ 0xff }
  v.v0 ^^^ v.v1 ^^^ v.v2 ^^^ v.v3

end SipState

def sipPadded (message : List Byte) : List Byte :=
  message ++ List.replicate (7 - message.length % 8) 0 ++ [BitVec.ofNat 8 message.length]

def sipWords (message : List Byte) : List (BitVec 64) :=
  (List.range (message.length / 8 + 1)).map fun i => word64 (((sipPadded message).drop (8 * i)).take 8)

/-- The hash of a message under a key of 16 bytes. -/
def sipHash (c d : Nat) (key message : List Byte) : BitVec 64 :=
  ((sipWords message).foldl (SipState.compress c)
    (.init (word64 (key.take 8)) (word64 ((key.drop 8).take 8)))).finalize d

example : sipHash 2 4 ((List.range 16).map (BitVec.ofNat 8)) ((List.range 15).map (BitVec.ofNat 8))
    = 0xa129ca6149be45e5 := by decide +kernel

/-! ## Messages in memory -/

theorem sipPadded_take (m : Mem) {q r : Nat} (hr : r < 8) :
    sipPadded (m.take (8 * q + r)) = m.take (8 * q)
      ++ ((m.add (8 * q)).take r ++ List.replicate (7 - r) 0 ++ [BitVec.ofNat 8 (8 * q + r)]) := by
  have hmod : (8 * q + r) % 8 = r := by omega
  rw [sipPadded, Mem.length_take, hmod, Mem.take_add]
  simp only [List.append_assoc]

/-- Only the low byte of a number has room in the highest byte of a word. -/
theorem setWidth_shiftLeft_last (n : Nat) :
    (BitVec.ofNat 8 n).setWidth 64 <<< 56 = BitVec.ofNat 64 n <<< 56 := by
  apply BitVec.eq_of_getLsbD_eq
  intro k hk
  simp only [BitVec.getLsbD_shiftLeft, BitVec.getLsbD_setWidth, BitVec.getLsbD_ofNat]
  by_cases hlow : k < 56
  · simp only [hlow, decide_true, Bool.not_true, Bool.and_false, Bool.false_and]
  · have h8 : k - 56 < 8 := by omega
    have h64 : k - 56 < 64 := by omega
    simp only [h8, h64, decide_true, Bool.true_and]

/-- The last word has the rest of the message and the length. -/
theorem sipWords_take (m : Mem) {q r : Nat} (hr : r < 8) :
    sipWords (m.take (8 * q + r)) = ((List.range q).map fun i => word64 ((m.add (8 * i)).take 8))
      ++ [word64 ((m.add (8 * q)).take r) ||| BitVec.ofNat 64 (8 * q + r) <<< 56] := by
  have hdiv : (8 * q + r) / 8 = q := by omega
  rw [sipWords, Mem.length_take, hdiv, List.range_succ, List.map_append, sipPadded_take m hr]
  refine congrArg₂ _ ?_ ?_
  · refine List.map_congr_left fun i hi => ?_
    rw [List.mem_range] at hi
    obtain ⟨n, hn⟩ : ∃ n, 8 * q = 8 * i + (8 + n) := ⟨8 * q - 8 * i - 8, by omega⟩
    rw [hn, Mem.take_add, Mem.take_add, List.append_assoc, List.append_assoc, List.drop_left' (Mem.length_take _ _),
      List.take_left' (Mem.length_take _ _)]
  · have hzeros : ((m.add (8 * q)).take r ++ List.replicate (7 - r) 0).length * 8 = 56 := by
      rw [List.length_append, Mem.length_take, List.length_replicate]
      omega
    rw [List.map_singleton, List.drop_left' (Mem.length_take _ _), List.take_of_length_le ?_, word64_concat, hzeros,
      word64_zeros, setWidth_shiftLeft_last]
    rw [List.length_append, List.length_singleton]
    omega

theorem sipHash_take (c d : Nat) (key m : Mem) {q r : Nat} (hr : r < 8) :
    sipHash c d (key.take 16) (m.take (8 * q + r)) =
      (((List.range q).foldl (fun v i => SipState.compress c v (word64 ((m.add (8 * i)).take 8)))
          (SipState.init (word64 (key.take 8)) (word64 ((key.add 8).take 8)))).compress c
        (word64 ((m.add (8 * q)).take r) ||| BitVec.ofNat 64 (8 * q + r) <<< 56)).finalize d := by
  have hkey : key.take 16 = key.take 8 ++ (key.add 8).take 8 := Mem.take_add key 8 8
  have hrest : ((key.add 8).take 8).take 8 = (key.add 8).take 8 :=
    List.take_of_length_le (Nat.le_of_eq (Mem.length_take _ _))
  rw [sipHash, sipWords_take m hr, List.foldl_append, List.foldl_map, hkey, List.take_left' (Mem.length_take _ _),
    List.drop_left' (Mem.length_take _ _), hrest]
  rfl

end Sddr.Lib
