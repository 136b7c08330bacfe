import Sddr.Codec.BinaryToUTF8

/-!
# BinaryToUTF8 as text

The name of an NR radio is passed on as a C string. `encode` with its asserts, and what makes its bytes legal text.
-/

namespace Sddr.Codec.BinaryToUTF8
open Sddr.Lib

/-- The asserts behind the bytes of a group. -/
def asserts : List Byte → Bool
  | [byte] => decide (byte &&& 0x80 = 0)
  | [first, second] =>
      decide (first ≠ 0xC0) && decide (first ≠ 0xC1) && decide (first &&& 0xC0 = 0xC0) && decide (second &&& 0xC0 = 0x80)
  | _ => true

/-- The outer loop of `encode` with its asserts, or nothing where one of them fails. -/
def Encoder.runAsserting (input : Mem) (length : Nat) (e : Encoder) : Option (List Byte) :=
  if e.inputPos < length ∨ 0 < e.numValueBits then
    let filled := e.fill input length
    let out := emit filled.value filled.numValueBits
    if asserts out.1 then (runAsserting input length { filled with numValueBits := out.2 }).map (out.1 ++ ·) else none
  else some []
termination_by e.left length
decreasing_by
  have hpos := e.numValueBits_fill input length (by simp only [left]; omega)
  have hlt := emit_lt (e.fill input length).value hpos
  rw [← e.left_fill input length]
  simp only [left]
  omega

def encodeAsserting (input : Mem) (length : Nat) : Option (List Byte) := Encoder.runAsserting input length ⟨0, 0, 0⟩

/-- Single bytes `0x01..0x7F`, and pairs of a lead byte and a continuation byte. -/
inductive Legal : List Byte → Prop
  | nil : Legal []
  | one {byte out} : 0x01 ≤ byte → byte ≤ 0x7F → Legal out → Legal (byte :: out)
  | two {lead continuation out} : lead = 0xC2 ∨ lead = 0xC3 → 0x80 ≤ continuation → continuation ≤ 0xBF → Legal out →
      Legal (lead :: continuation :: out)

/-- The bytes are the UTF-8 encoding of characters. -/
def WellFormed (bytes : List Byte) : Prop :=
  ∃ characters : List Char, (characters.flatMap String.utf8EncodeChar).map UInt8.toBitVec = bytes

end Sddr.Codec.BinaryToUTF8
