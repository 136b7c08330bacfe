import Sddr.Codec.BitMap
import Sddr.Lib.BitString

/-!
# BinaryToUTF8

`BinaryToUTF8.h` and `BinaryToUTF8.cpp`: bits as UTF-8 characters of seven bits each. A group of seven zeros would
be the character NUL, so it goes into a character of two bytes together with the next group.
-/

namespace Sddr.Codec.BinaryToUTF8
open Sddr.Lib

/-- `value << amount` of a `uint32_t`. -/
def shl (value amount : Nat) : Nat := value <<< amount % 2 ^ 32

def getNumEncodedBits (length : Nat) : Nat := (length + 6) / 7 * 8

/-! ## encode -/

/-- `value`, `numValueBits` and `inputPos` of `encode`. -/
structure Encoder where
  value : Nat
  numValueBits : Nat
  inputPos : Nat

/-- The inner loop, which adds more bytes to the value as necessary. -/
def Encoder.fill (input : Mem) (length : Nat) (e : Encoder) : Encoder :=
  if e.inputPos < length ∧ e.numValueBits < 14 then
    let remaining := length - e.inputPos
    let byte := (input (e.inputPos >>> 3)).toNat
    if 8 ≤ remaining then
      fill input length ⟨shl e.value 8 ||| byte, e.numValueBits + 8, e.inputPos + 8⟩
    else
      fill input length
        ⟨shl e.value remaining ||| (byte &&& (1 <<< remaining - 1)), e.numValueBits + remaining, e.inputPos + remaining⟩
  else e
termination_by length - e.inputPos

/-- The last `numValueBits` bits of the value with ones behind them. Only the low eight bits are kept. -/
def padded (value numValueBits : Nat) : Byte :=
  let padding := 7 - numValueBits
  BitVec.ofNat 8 (shl value padding ||| (1 <<< padding - 1))

/-- The next seven bits of the value. -/
def sevenBits (value numValueBits : Nat) : Byte := BitVec.ofNat 8 ((value >>> (numValueBits - 7)) &&& 0x7F)

/-- The two bytes of a group of zeros and `toEncode`. -/
def twoByteFormat (toEncode : Byte) : List Byte := [0xC2 ||| ((toEncode >>> 6) &&& 0x01), 0x80 ||| (toEncode &&& 0x3F)]

/-- The rest of the body of the outer loop: the bytes it writes and `numValueBits`. -/
def emit (value numValueBits : Nat) : List Byte × Nat :=
  let toEncode := if 7 ≤ numValueBits then sevenBits value numValueBits else padded value numValueBits &&& 0x7F
  -- after padding this is `numValueBits = 0`
  let numValueBits := numValueBits - 7
  if toEncode = 0 then
    if numValueBits < 7 then (twoByteFormat (padded value numValueBits), 0)
    else (twoByteFormat (sevenBits value numValueBits), numValueBits - 7)
  else ([toEncode], numValueBits)

/-- The bits that are still to be encoded. -/
def Encoder.left (length : Nat) (e : Encoder) : Nat := length - e.inputPos + e.numValueBits

theorem Encoder.left_fill (input : Mem) (length : Nat) (e : Encoder) :
    (e.fill input length).left length = e.left length := by
  fun_induction fill input length e with
  | case1 e h remaining byte hfull ih => rw [ih]; simp only [left]; omega
  | case2 e h remaining byte hpartial ih => rw [ih]; simp only [left]; omega
  | case3 e h => rfl

theorem Encoder.numValueBits_fill (input : Mem) (length : Nat) (e : Encoder) (h : 0 < e.left length) :
    0 < (e.fill input length).numValueBits := by
  fun_induction fill input length e with
  | case1 e hroom remaining byte hfull ih => apply ih; simp only [left]; omega
  | case2 e hroom remaining byte hpartial ih => apply ih; simp only [left]; omega
  | case3 e hdone => simp only [left] at h; omega

theorem emit_lt (value : Nat) {numValueBits : Nat} (h : 0 < numValueBits) : (emit value numValueBits).2 < numValueBits := by
  unfold emit
  dsimp only
  split_ifs <;> dsimp only <;> omega

/-- The outer loop. -/
def Encoder.run (input : Mem) (length : Nat) (e : Encoder) : List Byte :=
  if e.inputPos < length ∨ 0 < e.numValueBits then
    let filled := e.fill input length
    let out := emit filled.value filled.numValueBits
    out.1 ++ run input length { filled with numValueBits := out.2 }
  else []
termination_by e.left length
decreasing_by
  have hpos := e.numValueBits_fill input length (by simp only [left]; omega)
  have hlt := emit_lt (e.fill input length).value hpos
  rw [← e.left_fill input length]
  simp only [left]
  omega

/-- The bytes that `encode` writes. -/
def encode (input : Mem) (length : Nat) : List Byte := Encoder.run input length ⟨0, 0, 0⟩

/-! ## decode -/

/-- The loop that copies whole bytes to the output: the bytes and `numValueBits`. -/
def drain (value numValueBits : Nat) : List Byte × Nat :=
  if 8 ≤ numValueBits then
    let rest := drain value (numValueBits - 8)
    (BitVec.ofNat 8 (value >>> (numValueBits - 8) &&& 0xFF) :: rest.1, rest.2)
  else ([], numValueBits)
termination_by numValueBits

/-- The value after the character of two bytes `first` and `second`. -/
def escaped (value : Nat) (first second : Byte) : Nat :=
  shl value 14 ||| ((first &&& 0x01).toNat <<< 6) ||| (second &&& 0x3F).toNat

/-- The loop over the input and what follows it: the bytes that are written to the output. A second byte past the
end of the input is the terminator of its string. -/
def decodeFrom (value numValueBits : Nat) : List Byte → List Byte
  | [] => if 0 < numValueBits then [BitVec.ofNat 8 (value &&& (1 <<< numValueBits - 1))] else []
  | byte :: input =>
      if byte &&& 0xC0 = 0xC0 then
        let value := escaped value byte (input.headD 0)
        let out := drain value (numValueBits + 14)
        out.1 ++ decodeFrom value out.2 input.tail
      else
        let value := shl value 7 ||| (byte &&& 0x7F).toNat
        let out := drain value (numValueBits + 7)
        out.1 ++ decodeFrom value out.2 input
termination_by input => input.length

/-- The output after `decode`. The index into the input is an `int`, so there is no result for more bytes than that
can count. -/
def decode (output : Mem) (input : List Byte) : Option Mem :=
  if input.length < 2 ^ 31 then
    let bytes := decodeFrom 0 0 input
    some (output.copy (Mem.ofList bytes) bytes.length)
  else none

/-! ## What arrives -/

/-- The bits of the advert that an NR radio puts into its name. -/
def NAME_DECODED_SIZE : Nat := 1723

/-- The bits in the order `encode` takes them: each byte from its most significant bit on, of the last byte the bits
that belong to the input. -/
def stream (input : Mem) (length : Nat) : List Bool :=
  if 8 ≤ length then toBits 8 (input 0).toNat ++ stream (input.add 1) (length - 8)
  else toBits length (input 0).toNat
termination_by length

/-- The bits end with a group of zeros that no group of zeros before it takes in. -/
def Dangling (bits : List Bool) : Prop := bits.length % 7 = 0 ∧ trailingZeros bits / 7 % 2 = 1

instance (bits : List Bool) : Decidable (Dangling bits) := inferInstanceAs (Decidable (_ ∧ _))

def encodedSize (x : BitMap) : Nat :=
  getNumEncodedBits x.size / 8 + if Dangling (stream x.bits x.size) then 1 else 0

/-- The bits of the last byte stay where they are if there are none, if no padding follows them, or if they are ones
like the padding. -/
structure Arrives (x : BitMap) : Prop where
  indexed : encodedSize x < 2 ^ 31
  lastByte_kept : x.size % 8 = 0 ∨ (x.size % 7 = 0 ∧ ¬ Dangling (stream x.bits x.size)) ∨
    ∀ i < x.size, 8 * (x.size / 8) ≤ i → x.get i = true

end Sddr.Codec.BinaryToUTF8
