import Sddr.Codec.Lemmas.BinaryToUTF8
import Sddr.Codec.Text

/-!
# What BinaryToUTF8 writes is text
-/

namespace Sddr.Codec.BinaryToUTF8
open Sddr.Lib

variable {out rest : List Byte} {byte lead continuation : Byte}

/-! ## Legal text -/

theorem legal_twoByteFormat (b : Byte) (hrest : Legal rest) : Legal (twoByteFormat b ++ rest) := by
  have hlead : ∀ b : Byte, (0xC2 ||| ((b >>> 6) &&& 0x01) : Byte) = 0xC2 ∨ (0xC2 ||| ((b >>> 6) &&& 0x01) : Byte) = 0xC3 := by
    decide +kernel
  have hcontinuation : ∀ b : Byte, (0x80 : Byte) ≤ 0x80 ||| (b &&& 0x3F) ∧ (0x80 ||| (b &&& 0x3F) : Byte) ≤ 0xBF := by
    decide +kernel
  exact .two (hlead b) (hcontinuation b).1 (hcontinuation b).2 hrest

/-- Whatever bits the characters stand for, they are legal. -/
theorem Encodes.legal {bits : List Bool} (h : Encodes bits out) : Legal out := by
  induction h with
  | nil => exact .nil
  | @one bits b out _ _ hzero hlt _ ih =>
      have hrange : ∀ b : Byte, b ≠ 0 → b < 128 → (0x01 : Byte) ≤ b ∧ b ≤ 0x7F := by decide +kernel
      obtain ⟨hlow, hhigh⟩ := hrange b hzero hlt
      exact .one hlow hhigh ih
  | @two bits b out _ _ _ ih => exact legal_twoByteFormat b ih

theorem Legal.zero_notMem (h : Legal out) : 0 ∉ out := by
  induction h with
  | nil => exact List.not_mem_nil
  | one hlow _ _ ih =>
      rintro (_ | ⟨_, hmem⟩)
      · exact absurd hlow (by decide)
      · exact ih hmem
  | two hlead hlow _ _ ih =>
      rintro (_ | ⟨_, _ | ⟨_, hmem⟩⟩)
      · exact absurd hlead (by decide)
      · exact absurd hlow (by decide)
      · exact ih hmem

/-! ## Characters -/

theorem WellFormed.cons {c : Char} {bytes : List Byte} (hbytes : (String.utf8EncodeChar c).map UInt8.toBitVec = bytes)
    (h : WellFormed rest) : WellFormed (bytes ++ rest) := by
  obtain ⟨characters, rfl⟩ := h
  exact ⟨c :: characters, by rw [List.flatMap_cons, List.map_append, hbytes]⟩

/-- The characters up to `U+00FF` are those of one byte and those with these lead bytes. -/
theorem utf8_one (hhigh : byte ≤ 0x7F) :
    (String.utf8EncodeChar (Char.ofNat byte.toNat)).map UInt8.toBitVec = [byte] := by
  revert byte
  decide +kernel

theorem utf8_two (hlead : lead = 0xC2 ∨ lead = 0xC3) (hlow : 0x80 ≤ continuation) (hhigh : continuation ≤ 0xBF) :
    (String.utf8EncodeChar (Char.ofNat ((lead &&& 0x01).toNat * 64 + continuation.toNat))).map UInt8.toBitVec
      = [lead, continuation] := by
  revert continuation
  rcases hlead with rfl | rfl <;> decide +kernel

theorem Legal.wellFormed (h : Legal out) : WellFormed out := by
  induction h with
  | nil => exact ⟨[], rfl⟩
  | one _ hhigh _ ih => exact ih.cons (utf8_one hhigh)
  | two hlead hlow hhigh _ ih => exact ih.cons (utf8_two hlead hlow hhigh)

/-! ## The asserts -/

theorem asserts_emit (value : Nat) (n : Nat) : asserts (emit value n).1 = true := by
  have hone : ∀ b : Byte, b < 128 → asserts [b] = true := by decide +kernel
  have htwo : ∀ b : Byte, asserts (twoByteFormat b) = true := by decide +kernel
  have hlt : (if 7 ≤ n then sevenBits value n else padded value n &&& 0x7F) < 128 := by
    split
    · exact sevenBits_lt value n
    · next h7 => exact (padded_masked value (Nat.not_le.mp h7)).2.2
  unfold emit
  generalize (if 7 ≤ n then sevenBits value n else padded value n &&& 0x7F) = toEncode at hlt ⊢
  dsimp only
  split_ifs
  · exact htwo _
  · exact htwo _
  · exact hone toEncode hlt

theorem Encoder.runAsserting_eq (input : Mem) (length : Nat) (e : Encoder) :
    e.runAsserting input length = some (e.run input length) := by
  fun_induction run input length e with
  | case1 e hleft filled out ih =>
      rw [runAsserting, if_pos hleft]
      dsimp only
      rw [if_pos (asserts_emit _ _), ih]
      rfl
  | case2 e hdone => rw [runAsserting, if_neg hdone]

end Sddr.Codec.BinaryToUTF8
