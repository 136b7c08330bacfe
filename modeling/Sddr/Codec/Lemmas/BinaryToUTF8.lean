import Sddr.Codec.BinaryToUTF8
import Sddr.Codec.Lemmas.BitMap

/-!
# What BinaryToUTF8 writes and reads

`Encodes` is the format: the characters that stand for a bit string. `encode` writes it, `expand` gives the bits it
carries, and `decode` cuts these into bytes.
-/

namespace Sddr.Codec.BinaryToUTF8
open Sddr.Lib

variable {input : Mem} {length : Nat} {out : List Byte}

/-! ## The format -/

/-- The first seven bits, with ones behind them if there are fewer. -/
def group (bits : List Bool) : List Bool := bits.take 7 ++ List.replicate (7 - bits.length) true

inductive Encodes : List Bool → List Byte → Prop
  | nil : Encodes [] []
  | one {bits b out} : bits ≠ [] → toBits 7 b.toNat = group bits → b ≠ 0 → b < 128 → Encodes (bits.drop 7) out →
      Encodes bits (b :: out)
  | two {bits b out} : bits.take 7 = List.replicate 7 false → toBits 7 b.toNat = group (bits.drop 7) →
      Encodes (bits.drop 14) out → Encodes bits (twoByteFormat b ++ out)

theorem group_append {xs : List Bool} (hxs : xs.length = 7) (ys : List Bool) : group (xs ++ ys) = xs := by
  rw [group, List.take_left' hxs, List.length_append, hxs, Nat.sub_eq_zero_of_le (Nat.le_add_right _ _)]
  exact List.append_nil xs

theorem group_short {xs : List Bool} (hxs : xs.length ≤ 7) : group xs = xs ++ List.replicate (7 - xs.length) true := by
  rw [group, List.take_of_length_le hxs]

/-! ## encode -/

theorem toBits_shl_or {j k b : Nat} (n : Nat) (hjk : j + k ≤ 32) (hb : b < 2 ^ k) :
    toBits (j + k) (shl n k ||| b) = toBits j n ++ toBits k b := by
  rw [← toBits_shiftLeft_or j n hb]
  apply toBits_congr
  intro i hi
  have hmod : (shl n k).testBit i = (n <<< k).testBit i := by
    rw [shl, Nat.testBit_mod_two_pow, decide_eq_true (by omega), Bool.true_and]
  rw [Nat.testBit_or, Nat.testBit_or, hmod]

theorem toBits_sevenBits (value : Nat) {n : Nat} (hn : 7 ≤ n) :
    toBits n value = toBits 7 (sevenBits value n).toNat ++ toBits (n - 7) value := by
  rw [toBits_split value hn, sevenBits, BitVec.toNat_ofNat, toBits_mod (by decide), show 0x7F = 2 ^ 7 - 1 from rfl,
    toBits_and le_rfl]

theorem toBits_padded (value : Nat) {n : Nat} (hn : n < 7) :
    toBits 7 (padded value n).toNat = toBits n value ++ List.replicate (7 - n) true := by
  have hones : 1 <<< (7 - n) - 1 < 2 ^ (7 - n) := by
    rw [Nat.one_shiftLeft]
    exact Nat.sub_lt (Nat.two_pow_pos _) Nat.one_pos
  have hsum : n + (7 - n) = 7 := by omega
  have hbits := toBits_shl_or value (hsum.trans_le (by decide)) hones
  rw [hsum, toBits_ones] at hbits
  rw [padded, BitVec.toNat_ofNat, toBits_mod (by decide), hbits]

theorem toBits_sevenBits_zero : toBits 7 (0 : Byte).toNat = List.replicate 7 false := toBits_zero 7

theorem sevenBits_lt (value n : Nat) : sevenBits value n < 128 := by
  rw [BitVec.lt_def, sevenBits, BitVec.toNat_ofNat]
  have : value >>> (n - 7) &&& 0x7F ≤ 0x7F := Nat.and_le_right
  exact (Nat.mod_le _ _).trans_lt (by simpa using Nat.lt_succ_of_le this)

theorem padded_masked (value : Nat) {n : Nat} (hn : n < 7) :
    toBits 7 (padded value n &&& 0x7F).toNat = toBits n value ++ List.replicate (7 - n) true ∧
      padded value n &&& 0x7F ≠ 0 ∧ padded value n &&& 0x7F < 128 := by
  have hbits : toBits 7 (padded value n &&& 0x7F).toNat = toBits n value ++ List.replicate (7 - n) true := by
    rw [← toBits_padded value hn, BitVec.toNat_and]
    exact toBits_and (m := 7) le_rfl
  have hlt : ∀ b : Byte, b &&& 0x7F < 128 := by decide +kernel
  refine ⟨hbits, fun hzero => ?_, hlt _⟩
  rw [hzero, toBits_sevenBits_zero] at hbits
  have hmem : true ∈ List.replicate 7 false := by
    rw [hbits, List.mem_append, List.mem_replicate]
    exact Or.inr ⟨by omega, rfl⟩
  exact absurd hmem (by decide)

/-- The value holds fewer than fourteen bits only at the end of the input. -/
theorem emit_encodes (value : Nat) {n : Nat} (hn : 0 < n) (rest : List Bool) (hrest : rest = [] ∨ 14 ≤ n)
    (hout : Encodes (toBits (emit value n).2 value ++ rest) out) :
    Encodes (toBits n value ++ rest) ((emit value n).1 ++ out) := by
  have hnonempty : toBits n value ++ rest ≠ [] := by
    intro h
    have hlength := congrArg List.length h
    rw [List.length_append, length_toBits] at hlength
    exact absurd hlength (by simp; omega)
  unfold emit at hout ⊢
  dsimp only at hout ⊢
  by_cases h7 : 7 ≤ n
  · rw [if_pos h7] at hout ⊢
    have hsplit := toBits_sevenBits value h7
    have hlen : (toBits 7 (sevenBits value n).toNat).length = 7 := length_toBits _ _
    by_cases hzero : sevenBits value n = 0
    · rw [if_pos hzero] at hout ⊢
      have htake : (toBits n value ++ rest).take 7 = List.replicate 7 false := by
        rw [hsplit, List.append_assoc, List.take_left' hlen, hzero, toBits_sevenBits_zero]
      have hdrop : (toBits n value ++ rest).drop 7 = toBits (n - 7) value ++ rest := by
        rw [hsplit, List.append_assoc, List.drop_left' hlen]
      have hdrop' : (toBits n value ++ rest).drop 14 = (toBits (n - 7) value ++ rest).drop 7 := by
        rw [← hdrop, List.drop_drop]
      by_cases h14 : n - 7 < 7
      · -- the end of the input: padding fills the second group
        have hend : rest = [] := hrest.resolve_right (by omega)
        rw [if_pos h14] at hout ⊢
        apply Encodes.two htake
        · rw [hdrop, hend, List.append_nil, toBits_padded value h14,
            group_short ((length_toBits _ _).trans_le h14.le), length_toBits]
        · rw [hdrop', List.drop_eq_nil_of_le (by simp [hend]; omega)]
          rwa [hend] at hout
      · rw [if_neg h14] at hout ⊢
        have hsplit' := toBits_sevenBits value (Nat.not_lt.mp h14)
        apply Encodes.two htake
        · rw [hdrop, hsplit', List.append_assoc, group_append (length_toBits _ _)]
        · rw [hdrop', hsplit', List.append_assoc, List.drop_left' (length_toBits _ _)]
          exact hout
    · rw [if_neg hzero] at hout ⊢
      apply Encodes.one hnonempty
      · rw [hsplit, List.append_assoc, group_append hlen]
      · exact hzero
      · exact sevenBits_lt value n
      · rw [hsplit, List.append_assoc, List.drop_left' hlen]
        exact hout
  · -- the last group, which padding fills
    have hend : rest = [] := hrest.resolve_right (by omega)
    obtain ⟨hbits, hzero, hlt⟩ := padded_masked value (Nat.not_le.mp h7)
    rw [if_neg h7, if_neg hzero] at hout ⊢
    have hshort : n - 7 = 0 := by omega
    apply Encodes.one hnonempty _ hzero hlt
    · rw [hend, List.append_nil, List.drop_eq_nil_of_le (by simp; omega)]
      rw [hend, hshort] at hout
      exact hout
    · rw [hbits, hend, List.append_nil, group_short (by simp; omega), length_toBits]

theorem stream_zero (input : Mem) : stream input 0 = [] := by
  rw [stream]
  rfl

@[simp] theorem length_stream (input : Mem) (length : Nat) : (stream input length).length = length := by
  fun_induction stream input length with
  | case1 input length h ih => simp only [List.length_append, length_toBits, ih]; omega
  | case2 input length h => rw [length_toBits]

namespace Encoder

/-- The bits that are still to be encoded, in their order. -/
def bits (input : Mem) (length : Nat) (e : Encoder) : List Bool :=
  toBits e.numValueBits e.value ++ stream (input.add (e.inputPos / 8)) (length - e.inputPos)

def Aligned (length : Nat) (e : Encoder) : Prop := e.inputPos % 8 = 0 ∨ length ≤ e.inputPos

theorem head_add (input : Mem) (pos : Nat) : input.add (pos / 8) 0 = input (pos >>> 3) := by
  simp [Mem.add, Nat.shiftRight_eq_div_pow]

variable (input) in
/-- Filling moves bits of the input into the value. -/
theorem fill_bits (e : Encoder) (h : e.Aligned length) :
    (e.fill input length).bits input length = e.bits input length ∧ (e.fill input length).Aligned length ∧
      (length ≤ (e.fill input length).inputPos ∨ 14 ≤ (e.fill input length).numValueBits) := by
  fun_induction fill input length e with
  | case1 e hroom remaining byte hfull ih =>
      have haligned : e.inputPos % 8 = 0 := h.resolve_right (Nat.not_le.mpr hroom.1)
      obtain ⟨hbits, hrest⟩ := ih (Or.inl (by dsimp only; omega))
      refine ⟨hbits.trans ?_, hrest⟩
      have hnext : (input.add (e.inputPos / 8)).add 1 = input.add ((e.inputPos + 8) / 8) := by
        funext i
        unfold Mem.add
        congr 1
        omega
      rw [bits, bits, toBits_shl_or _ (by omega) (BitVec.isLt _), List.append_assoc]
      congr 1
      conv_rhs => rw [stream, if_pos hfull, hnext, Nat.sub_sub, head_add]
  | case2 e hroom remaining byte hpartial ih =>
      have hend : e.inputPos + remaining = length := by omega
      obtain ⟨hbits, hrest⟩ := ih (Or.inr hend.ge)
      refine ⟨hbits.trans ?_, hrest⟩
      have hlow : byte &&& (1 <<< remaining - 1) < 2 ^ remaining := by
        rw [Nat.one_shiftLeft, Nat.and_two_pow_sub_one_eq_mod]
        exact Nat.mod_lt _ (Nat.two_pow_pos _)
      rw [bits, bits, toBits_shl_or _ (by omega) hlow, List.append_assoc]
      congr 1
      conv_rhs => rw [stream, if_neg hpartial, head_add]
      dsimp only
      rw [hend, Nat.sub_self, stream_zero, List.append_nil, Nat.one_shiftLeft, toBits_and le_rfl]
  | case3 e hdone => exact ⟨rfl, h, by omega⟩

variable (input) in
theorem encodes_run (e : Encoder) (h : e.Aligned length) : Encodes (e.bits input length) (e.run input length) := by
  fun_induction run input length e with
  | case1 e hleft filled out ih =>
      obtain ⟨hbits, haligned, hfull⟩ := fill_bits input e h
      have hpos : 0 < filled.numValueBits := e.numValueBits_fill input length (by simp only [left]; omega)
      rw [← hbits]
      apply emit_encodes filled.value hpos
      · apply hfull.imp_left
        intro hend
        rw [Nat.sub_eq_zero_of_le hend, stream_zero]
      · exact ih haligned
  | case2 e hdone =>
      have hvalue : e.numValueBits = 0 := by omega
      have hinput : length - e.inputPos = 0 := by omega
      rw [bits, hvalue, hinput, stream_zero]
      exact Encodes.nil

end Encoder

theorem encodes_encode (input : Mem) (length : Nat) : Encodes (stream input length) (encode input length) := by
  have h : Encodes _ (encode input length) := Encoder.encodes_run input ⟨0, 0, 0⟩ (Or.inl rfl)
  rwa [Encoder.bits, Nat.zero_div, Mem.add_zero] at h

/-! ## The size -/

theorem Encodes.eq_nil (h : Encodes [] out) : out = [] := by
  generalize hbits : ([] : List Bool) = bits at h
  cases h with
  | nil => rfl
  | one hne _ _ _ _ => exact absurd hbits.symm hne
  | two hzero _ _ => rw [← hbits] at hzero; exact absurd hzero (by decide)

theorem trailingZeros_of_notMem {bits : List Bool} (h : true ∉ bits) : trailingZeros bits = bits.length := by
  rw [← List.nil_append bits, trailingZeros_append, if_neg h, trailingZeros_nil, Nat.zero_add, List.nil_append]

theorem trailingZeros_lt {bits : List Bool} (h : true ∈ bits) : trailingZeros bits < bits.length := by
  obtain ⟨xs, ys, rfl⟩ := List.append_of_mem h
  rw [List.append_cons, trailingZeros_append]
  have hle := trailingZeros_le ys
  have hxs : trailingZeros (xs ++ [true]) = 0 := by
    rw [trailingZeros_append, if_pos (List.mem_singleton_self true)]
    rfl
  split_ifs <;> simp only [List.length_append, List.length_singleton] <;> omega

/-- A group with a one in it keeps the groups of zeros behind it apart from those before it. -/
theorem dangling_append {xs ys : List Bool} (hxs : xs.length = 7) (hone : true ∈ xs) :
    Dangling (xs ++ ys) ↔ Dangling ys := by
  have hlt := trailingZeros_lt hone
  unfold Dangling
  rw [trailingZeros_append, List.length_append]
  split_ifs with h
  · omega
  · rw [trailingZeros_of_notMem h]
    omega

/-- A group of zeros takes in the group behind it. -/
theorem dangling_zeros_append {xs ys : List Bool} (hxs : xs.length = 7) :
    Dangling (List.replicate 7 false ++ (xs ++ ys)) ↔ Dangling ys := by
  by_cases hone : true ∈ xs
  · rw [← @dangling_append xs ys hxs hone]
    unfold Dangling
    rw [trailingZeros_append, if_pos (List.mem_append_left ys hone), List.length_append, List.length_replicate]
    omega
  · unfold Dangling
    rw [← List.append_assoc, trailingZeros_append, List.length_append, List.length_append, List.length_replicate, hxs]
    split_ifs with h
    · omega
    · have hzeros : true ∉ List.replicate 7 false ++ xs := by
        rw [List.mem_append]
        rintro (hmem | hmem)
        · exact absurd hmem (by decide)
        · exact hone hmem
      rw [trailingZeros_of_notMem hzeros, trailingZeros_of_notMem h, List.length_append, List.length_replicate, hxs]
      omega

theorem dangling_zeros : Dangling (List.replicate 7 false) := by decide

theorem one_mem_group {b : Byte} (hzero : b ≠ 0) (hlt : b < 128) : true ∈ toBits 7 b.toNat := by
  by_contra hmem
  apply hzero
  have hzeros : toBits 7 b.toNat = List.replicate 7 false := by
    apply List.eq_replicate_iff.mpr
    refine ⟨length_toBits 7 _, fun bit hbit => ?_⟩
    cases bit
    · rfl
    · exact absurd hbit hmem
  apply BitVec.eq_of_toNat_eq
  exact (toBits_eq_zero_iff (by rw [BitVec.lt_def] at hlt; exact hlt)).mp hzeros

theorem Encodes.nil_of_drop {bits : List Bool} {n : Nat} (hout : Encodes (bits.drop n) out) (h : bits.length ≤ n) :
    out = [] := by
  rw [List.drop_eq_nil_of_le h] at hout
  exact hout.eq_nil

theorem length_of_take {bits : List Bool} (h : bits.take 7 = List.replicate 7 false) : 7 ≤ bits.length := by
  have hlength := congrArg List.length h
  rw [List.length_take, List.length_replicate] at hlength
  omega

/-- One byte for each group, and one more when the last group of zeros takes in no other. -/
theorem Encodes.length_eq {bits : List Bool} (h : Encodes bits out) :
    out.length = (bits.length + 6) / 7 + if Dangling bits then 1 else 0 := by
  induction h with
  | nil => rfl
  | @one bits b out hne hbits hzero hlt hout ih =>
      have hpos : 0 < bits.length := List.length_pos_iff.mpr hne
      by_cases hshort : bits.length < 7
      · have hdangling : ¬ Dangling bits := fun h => by have := h.1; omega
        rw [hout.nil_of_drop hshort.le, if_neg hdangling, List.length_singleton]
        omega
      · have htake : (bits.take 7).length = 7 := by rw [List.length_take]; omega
        have hgroup : group bits = bits.take 7 := by
          conv_lhs => rw [← List.take_append_drop 7 bits, group_append htake]
        have hone : true ∈ bits.take 7 := by
          rw [← hgroup, ← hbits]
          exact one_mem_group hzero hlt
        have hdangling : Dangling bits ↔ Dangling (bits.drop 7) := by
          conv_lhs => rw [← List.take_append_drop 7 bits, dangling_append htake hone]
        rw [List.length_cons, ih, List.length_drop, if_congr hdangling rfl rfl]
        omega
  | @two bits b out hzero hbits hout ih =>
      have hlen := length_of_take hzero
      have hfront : bits = List.replicate 7 false ++ bits.drop 7 := by rw [← hzero, List.take_append_drop]
      rw [List.length_append]
      show 2 + out.length = _
      by_cases hlong : 14 ≤ bits.length
      · have hsecond : bits.drop 7 = (bits.drop 7).take 7 ++ bits.drop 14 := by
          rw [← List.drop_drop (i := 7) (j := 7), List.take_append_drop]
        have htake : ((bits.drop 7).take 7).length = 7 := by rw [List.length_take, List.length_drop]; omega
        have hdangling : Dangling bits ↔ Dangling (bits.drop 14) := by
          conv_lhs => rw [hfront, hsecond, dangling_zeros_append htake]
        rw [ih, List.length_drop, if_congr hdangling rfl rfl]
        omega
      · rw [hout.nil_of_drop (by omega)]
        by_cases hexact : bits.length = 7
        · have hdangling : Dangling bits := by
            rw [hfront, List.drop_eq_nil_of_le hexact.le, List.append_nil]
            exact dangling_zeros
          rw [if_pos hdangling, hexact]
          rfl
        · have hdangling : ¬ Dangling bits := fun h => by have := h.1; omega
          rw [if_neg hdangling, List.length_nil]
          omega

/-! ## decode -/

/-- The bits that characters carry. -/
def expand : List Byte → List Bool
  | [] => []
  | byte :: input =>
      if byte &&& 0xC0 = 0xC0 then
        List.replicate 7 false ++ toBits 7 (((byte &&& 0x01).toNat <<< 6) ||| ((input.headD 0) &&& 0x3F).toNat) ++
          expand input.tail
      else toBits 7 byte.toNat ++ expand input
termination_by input => input.length

theorem expand_twoByteFormat (b : Byte) (out : List Byte) :
    expand (twoByteFormat b ++ out) = List.replicate 7 false ++ toBits 7 b.toNat ++ expand out := by
  have hlead : ∀ b : Byte, (0xC2 ||| ((b >>> 6) &&& 0x01)) &&& 0xC0 = (0xC0 : Byte) := by decide +kernel
  have hbits : ∀ b : Byte, toBits 7 (((0xC2 ||| ((b >>> 6) &&& 0x01) : Byte) &&& 0x01).toNat <<< 6 |||
      ((0x80 ||| (b &&& 0x3F) : Byte) &&& 0x3F).toNat) = toBits 7 b.toNat := by decide +kernel
  show expand (_ :: _ :: out) = _
  rw [expand, if_pos (hlead b), List.headD_cons, List.tail_cons, hbits b]

theorem group_append_drop (bits : List Bool) {n : Nat} (h : bits.length ≤ 7 → n = 0) :
    group bits ++ (bits.drop 7 ++ List.replicate (7 * n - (bits.length - 7)) true)
      = bits ++ List.replicate (7 * (n + 1) - bits.length) true := by
  unfold group
  by_cases hshort : bits.length ≤ 7
  · rw [h hshort, List.take_of_length_le hshort, List.drop_eq_nil_of_le hshort, Nat.sub_eq_zero_of_le hshort]
    simp
  · have hpad : 7 * (n + 1) - bits.length = 7 * n - (bits.length - 7) := by omega
    rw [Nat.sub_eq_zero_of_le (Nat.le_of_not_le hshort), List.replicate_zero, List.append_nil, ← List.append_assoc,
      List.take_append_drop, hpad]

/-- What is carried beyond the bits are ones. -/
theorem Encodes.expand_eq {bits : List Bool} (h : Encodes bits out) :
    expand out = bits ++ List.replicate (7 * out.length - bits.length) true := by
  induction h with
  | nil =>
      rw [expand]
      rfl
  | @one bits b out hne hbits hzero hlt hout ih =>
      have hlead : ∀ b : Byte, b < 128 → b &&& 0xC0 ≠ 0xC0 := by decide +kernel
      rw [expand, if_neg (hlead b hlt), hbits, ih, List.length_drop, List.length_cons]
      exact group_append_drop bits fun h => by rw [hout.nil_of_drop h]; rfl
  | @two bits b out hzero hbits hout ih =>
      have hlen := length_of_take hzero
      have hdrop : bits.drop 14 = (bits.drop 7).drop 7 := by rw [List.drop_drop]
      have hsecond : (bits.drop 7).length ≤ 7 → out.length = 0 := by
        intro h
        rw [List.length_drop] at h
        rw [hout.nil_of_drop (by omega), List.length_nil]
      have hsub : bits.length - 14 = (bits.drop 7).length - 7 := by rw [List.length_drop]; omega
      rw [expand_twoByteFormat, hbits, ih, List.length_drop, hsub, hdrop, List.append_assoc,
        group_append_drop _ hsecond, ← hzero, ← List.append_assoc, List.take_append_drop, List.length_drop,
        List.length_append]
      congr 2
      show _ = 7 * (2 + out.length) - bits.length
      omega

/-- The bytes that hold the bits in eights, each from its most significant bit on, the last bits in the low bits of a
byte of their own. -/
inductive Packs : List Bool → List Byte → Prop
  | nil : Packs [] []
  | last {bits b} : bits ≠ [] → bits.length < 8 → toBits bits.length b.toNat = bits → Packs bits [b]
  | full {bits b out} : 8 ≤ bits.length → toBits 8 b.toNat = bits.take 8 → Packs (bits.drop 8) out →
      Packs bits (b :: out)

theorem drain_lt (value n : Nat) : (drain value n).2 < 8 := by
  fun_induction drain value n with
  | case1 n h rest ih => exact ih
  | case2 n h => omega

theorem drain_packs (value n : Nat) (rest : List Bool) (h : Packs (toBits (drain value n).2 value ++ rest) out) :
    Packs (toBits n value ++ rest) ((drain value n).1 ++ out) := by
  fun_induction drain value n with
  | case1 n hn drained ih =>
      have hbyte : toBits 8 (BitVec.ofNat 8 (value >>> (n - 8) &&& 0xFF)).toNat = toBits 8 (value >>> (n - 8)) := by
        rw [BitVec.toNat_ofNat, toBits_mod le_rfl, show 0xFF = 2 ^ 8 - 1 from rfl, toBits_and le_rfl]
      rw [toBits_split value hn, List.append_assoc]
      apply Packs.full
      · rw [List.length_append, length_toBits]
        exact Nat.le_add_right _ _
      · rw [List.take_left' (length_toBits _ _), hbyte]
      · rw [List.drop_left' (length_toBits _ _)]
        exact ih h
  | case2 n hn => exact h

/-- Seven or fourteen bits are put behind the bits the value holds. -/
theorem toBits_escaped (value : Nat) {n : Nat} (hn : n < 8) (first second : Byte) :
    toBits (n + 14) (escaped value first second) = toBits n value ++
      (List.replicate 7 false ++ toBits 7 (((first &&& 0x01).toNat <<< 6) ||| (second &&& 0x3F).toNat)) := by
  have hlt : ∀ b c : Byte, ((b &&& 0x01).toNat <<< 6) ||| (c &&& 0x3F).toNat < 2 ^ 7 := by
    intro b c
    apply Nat.or_lt_two_pow
    · revert b
      decide +kernel
    · revert c
      decide +kernel
  have hsmall := hlt first second
  rw [escaped, Nat.or_assoc, toBits_shl_or value (by omega) (hsmall.trans (by decide)), toBits_split _ (show 7 ≤ 14 by decide),
    Nat.shiftRight_eq_div_pow, Nat.div_eq_of_lt hsmall, toBits_zero]

theorem decodeFrom_packs (value : Nat) {n : Nat} (hn : n < 8) (input : List Byte) :
    Packs (toBits n value ++ expand input) (decodeFrom value n input) := by
  fun_induction decodeFrom value n input with
  | case1 value n hpos =>
      rw [expand, List.append_nil]
      have hbits : toBits n (BitVec.ofNat 8 (value &&& (1 <<< n - 1))).toNat = toBits n value := by
        rw [BitVec.toNat_ofNat, toBits_mod hn.le, Nat.one_shiftLeft, toBits_and le_rfl]
      apply Packs.last
      · exact List.ne_nil_of_length_pos ((length_toBits n value).symm ▸ hpos)
      · rwa [length_toBits]
      · rw [length_toBits, hbits]
  | case2 value n hzero =>
      obtain rfl : n = 0 := by omega
      rw [expand]
      exact Packs.nil
  | case3 value n byte input hlead value' out ih =>
      rw [expand, if_pos hlead, ← List.append_assoc (toBits n value), ← toBits_escaped value hn]
      exact drain_packs _ _ _ (ih (drain_lt _ _))
  | case4 value n byte input hlead value' out ih =>
      have hbits : toBits (n + 7) value' = toBits n value ++ toBits 7 byte.toNat := by
        have hlt : (byte &&& 0x7F).toNat < 2 ^ 7 := Nat.and_lt_two_pow _ (by decide)
        rw [toBits_shl_or value (by omega) hlt, BitVec.toNat_and]
        congr 1
        exact toBits_and (m := 7) le_rfl
      rw [expand, if_neg hlead, ← List.append_assoc, ← hbits]
      exact drain_packs _ _ _ (ih (drain_lt _ _))

/-! ## What decode gives back -/

theorem byte_of_toBits {b c : Byte} (h : toBits 8 b.toNat = toBits 8 c.toNat) : b = c := by
  apply BitVec.eq_of_getLsbD_eq
  intro i hi
  exact testBit_of_toBits h i hi

/-- The whole bytes of a stream come first, as they were. -/
theorem Packs.of_stream (input : Mem) (length : Nat) (pad : List Bool) (h : Packs (stream input length ++ pad) out) :
    ∃ tail, out = input.take (length / 8) ++ tail ∧
      Packs (toBits (length % 8) (input (length / 8)).toNat ++ pad) tail := by
  fun_induction stream input length generalizing out with
  | case1 input length hlong ih =>
      rw [List.append_assoc] at h
      generalize hbits : toBits 8 (input 0).toNat ++ (stream (input.add 1) (length - 8) ++ pad) = bits at h
      cases h with
      | nil => exact absurd hbits (by simp [toBits])
      | last _ hshort _ =>
          rw [← hbits, List.length_append, length_toBits] at hshort
          omega
      | @full _ b out hlong' hbyte hout =>
          rw [← hbits, List.take_left' (length_toBits _ _)] at hbyte
          rw [← hbits, List.drop_left' (length_toBits _ _)] at hout
          obtain ⟨tail, htail, hpacks⟩ := ih hout
          obtain ⟨k, hk⟩ : ∃ k, length / 8 = k + 1 := ⟨length / 8 - 1, by omega⟩
          have hk' : (length - 8) / 8 = k := by omega
          have hmod : (length - 8) % 8 = length % 8 := by omega
          have hlast : input.add 1 k = input (k + 1) := by rw [Mem.add, Nat.add_comm]
          rw [hk'] at htail
          rw [hk', hmod, hlast] at hpacks
          refine ⟨tail, ?_, hk ▸ hpacks⟩
          rw [hk, Mem.take_succ, List.cons_append, ← htail, byte_of_toBits hbyte]
  | case2 input length hshort =>
      have hdiv : length / 8 = 0 := by omega
      have hmod : length % 8 = length := by omega
      exact ⟨out, by rw [hdiv]; rfl, by rwa [hdiv, hmod]⟩

/-- `m` bits and the padding behind them: as much of it as fits moves the bits up in their byte. -/
theorem Packs.head_bits {v m p : Nat} (hm : 0 < m) (hm8 : m < 8)
    (h : Packs (toBits m v ++ List.replicate p true) out) :
    ∃ b rest, out = b :: rest ∧
      toBits (m + min p (8 - m)) b.toNat = toBits m v ++ List.replicate (min p (8 - m)) true := by
  have hlength : (toBits m v ++ List.replicate p true).length = m + p := by simp
  generalize hbits : toBits m v ++ List.replicate p true = bits at h hlength
  cases h with
  | nil => simp at hlength; omega
  | @last _ b _ hshort hb =>
      have hmin : min p (8 - m) = p := by omega
      exact ⟨b, [], rfl, by rw [hmin, ← hlength, hb, hbits]⟩
  | @full _ b rest hlong hb _ =>
      have hmin : min p (8 - m) = 8 - m := by omega
      have hsum : m + (8 - m) = 8 := by omega
      refine ⟨b, rest, rfl, ?_⟩
      rw [hmin, hsum, hb, ← hbits, List.take_append, length_toBits, List.take_of_length_le (by simp; omega),
        List.take_replicate, Nat.min_eq_left (by omega)]

theorem testBit_shifted {v m s b : Nat} (h : toBits (m + s) b = toBits m v ++ List.replicate s true) :
    ∀ i < m, b.testBit i = if i < s then true else v.testBit (i - s) := by
  rw [toBits_add, ← toBits_ones] at h
  obtain ⟨hhigh, hlow⟩ := List.append_inj h (by simp)
  intro i hi
  split_ifs with hs
  · rw [testBit_of_toBits hlow i hs, Nat.one_shiftLeft, Nat.testBit_two_pow_sub_one, decide_eq_true hs]
  · rw [← testBit_of_toBits hhigh (i - s) (by omega), Nat.testBit_shiftRight]
    congr 1
    omega

/-- Bits that are moved up behind ones stay the same only if they are ones. -/
theorem shifted_eq_iff {f g : Nat → Bool} {m s : Nat} (h : ∀ i < m, g i = if i < s then true else f (i - s)) :
    (∀ i < m, g i = f i) ↔ s = 0 ∨ ∀ i < m, f i = true := by
  constructor
  · intro heq
    by_cases hs : s = 0
    · exact Or.inl hs
    · right
      intro i
      induction i using Nat.strong_induction_on with
      | h i ih =>
          intro hi
          have hgi := h i hi
          rw [heq i hi] at hgi
          split_ifs at hgi with his
          · exact hgi
          · rw [hgi]
            exact ih (i - s) (by omega) (by omega)
  · rintro (rfl | hones) i hi
    · exact h i hi
    · rw [h i hi, hones i hi]
      split_ifs
      · rfl
      · exact hones (i - s) (by omega)

theorem get_mul_add (x : BitMap) (i : Nat) {k : Nat} (hk : k < 8) : x.get (8 * i + k) = (x.bits i).toNat.testBit k := by
  rw [BitMap.get_eq_bit, Mem.bit_mul_add _ _ hk]
  rfl

/-- The bits of the stream of `x` with `p` ones behind it are those of `x` if and only if the last byte has none, is
not moved up, or holds ones only. -/
theorem Packs.arrives_iff {x y : BitMap} {p : Nat} (h : Packs (stream x.bits x.size ++ List.replicate p true) out)
    (hy : ∀ i < out.length, y.bits i = out.getD i 0) :
    (∀ i < x.size, y.get i = x.get i) ↔
      x.size % 8 = 0 ∨ p = 0 ∨ ∀ i < x.size, 8 * (x.size / 8) ≤ i → x.get i = true := by
  obtain ⟨tail, rfl, htail⟩ := h.of_stream
  generalize hq : x.size / 8 = q at htail hy ⊢
  generalize hm : x.size % 8 = m at htail ⊢
  have hm8 : m < 8 := by omega
  have hwhole : ∀ i < 8 * q, y.get i = x.get i := by
    intro i hi
    have hbyte : y.bits (i / 8) = x.bits (i / 8) := by
      have hlt : i / 8 < q := by omega
      rw [hy _ (by simp; omega), List.getD_append _ _ _ _ (by simpa using hlt), Mem.take_getD hlt]
    rw [BitMap.get_eq_bit, BitMap.get_eq_bit, Mem.bit, Mem.bit, hbyte]
  by_cases hzero : m = 0
  · have hall : ∀ i < x.size, y.get i = x.get i := fun i hi => hwhole i (by omega)
    exact iff_of_true hall (Or.inl hzero)
  · obtain ⟨b, rest, rfl, hbits⟩ := htail.head_bits (Nat.pos_of_ne_zero hzero) hm8
    have hlast : y.bits q = b := by
      rw [hy q (by simp), List.getD_append_right _ _ _ _ (by simp)]
      simp
    have hshift := shifted_eq_iff (testBit_shifted hbits)
    have hmoved : min p (8 - m) = 0 ↔ p = 0 := by omega
    rw [hmoved] at hshift
    have hy' : ∀ k < m, y.get (8 * q + k) = b.toNat.testBit k := fun k hk => by
      rw [get_mul_add y q (by omega), hlast]
    have hx' : ∀ k < m, x.get (8 * q + k) = (x.bits q).toNat.testBit k := fun k hk => get_mul_add x q (by omega)
    have hsame : (∀ i < x.size, y.get i = x.get i) ↔ ∀ k < m, b.toNat.testBit k = (x.bits q).toNat.testBit k := by
      constructor
      · intro heq k hk
        rw [← hy' k hk, ← hx' k hk]
        exact heq _ (by omega)
      · intro heq i hi
        by_cases hfront : i < 8 * q
        · exact hwhole i hfront
        · obtain ⟨k, rfl⟩ := Nat.exists_eq_add_of_le (Nat.not_lt.mp hfront)
          rw [hy' k (by omega), hx' k (by omega), heq k (by omega)]
    have hones : (∀ i < x.size, 8 * q ≤ i → x.get i = true) ↔ ∀ k < m, (x.bits q).toNat.testBit k = true := by
      constructor
      · intro hall k hk
        rw [← hx' k hk]
        exact hall _ (by omega) (Nat.le_add_right _ _)
      · intro hall i hi hle
        obtain ⟨k, rfl⟩ := Nat.exists_eq_add_of_le hle
        rw [hx' k (by omega), hall k (by omega)]
    rw [hsame, hshift, hones, or_iff_right hzero]

theorem length_encode (x : BitMap) : (encode x.bits x.size).length = encodedSize x := by
  rw [(encodes_encode x.bits x.size).length_eq, length_stream, encodedSize, getNumEncodedBits,
    Nat.mul_div_cancel _ (by decide)]

theorem padding_eq_zero_iff (x : BitMap) :
    7 * encodedSize x - x.size = 0 ↔ x.size % 7 = 0 ∧ ¬ Dangling (stream x.bits x.size) := by
  have hdangling : Dangling (stream x.bits x.size) → x.size % 7 = 0 := fun h => by
    have hmod := h.1
    rwa [length_stream] at hmod
  unfold encodedSize getNumEncodedBits
  split_ifs with h
  · have hmod := hdangling h
    simp only [h, not_true_eq_false, and_false, iff_false]
    omega
  · simp only [h, not_false_eq_true, and_true]
    omega

theorem decode_encode (x : BitMap) (hindexed : encodedSize x < 2 ^ 31) :
    ∃ bits, decode (BitMap.new x.size).bits (encode x.bits x.size) = some bits ∧
      ((∀ i < x.size, (BitMap.mk x.size bits).get i = x.get i) ↔
        x.size % 8 = 0 ∨ (x.size % 7 = 0 ∧ ¬ Dangling (stream x.bits x.size)) ∨
          ∀ i < x.size, 8 * (x.size / 8) ≤ i → x.get i = true) := by
  have hpacks := decodeFrom_packs 0 (show 0 < 8 by decide) (encode x.bits x.size)
  rw [show toBits 0 0 = [] from rfl, List.nil_append, (encodes_encode x.bits x.size).expand_eq, length_stream,
    length_encode] at hpacks
  rw [decode, length_encode, if_pos hindexed, ← padding_eq_zero_iff]
  refine ⟨_, rfl, hpacks.arrives_iff fun i hi => ?_⟩
  show (if i < _ then _ else _) = _
  rw [if_pos hi]
  rfl

theorem decode_encode_none (x : BitMap) (h : ¬ encodedSize x < 2 ^ 31) (output : Mem) :
    decode output (encode x.bits x.size) = none := by
  rw [decode, length_encode, if_neg h]

/-! ## Where the bits arrive -/

/-- With `p` ones behind the stream of `x` the whole bytes arrive, and in the last one the bits are moved up behind as many
of the ones as it has room for. -/
theorem Packs.arrived {x y : BitMap} {p : Nat} (h : Packs (stream x.bits x.size ++ List.replicate p true) out)
    (hy : ∀ i < out.length, y.bits i = out.getD i 0) {i : Nat} (hi : i < x.size) :
    y.get i =
      if i < 8 * (x.size / 8) then x.get i
      else if i < 8 * (x.size / 8) + min p (8 - x.size % 8) then true
      else x.get (i - min p (8 - x.size % 8)) := by
  obtain ⟨tail, rfl, htail⟩ := h.of_stream
  split_ifs with hfront hmoved
  · have hlt : i / 8 < x.size / 8 := by omega
    have hbyte : y.bits (i / 8) = x.bits (i / 8) := by
      rw [hy _ (by simp; omega), List.getD_append _ _ _ _ (by simpa using hlt), Mem.take_getD hlt]
    rw [BitMap.get_eq_bit, BitMap.get_eq_bit, Mem.bit, Mem.bit, hbyte]
  all_goals
    obtain ⟨k, rfl⟩ := Nat.exists_eq_add_of_le (Nat.not_lt.mp hfront)
    have hk : k < x.size % 8 := by omega
    obtain ⟨b, rest, rfl, hbits⟩ := htail.head_bits (by omega) (Nat.mod_lt _ (by decide))
    have hlast : y.bits (x.size / 8) = b := by
      rw [hy _ (by simp), List.getD_append_right _ _ _ _ (by simp)]
      simp
    rw [get_mul_add y _ (by omega), hlast, testBit_shifted hbits k hk]
  · exact if_pos (by omega)
  · rw [if_neg (by omega), Nat.add_sub_assoc (by omega), get_mul_add x _ (by omega)]

theorem get_decode_encode (x : BitMap) (hindexed : encodedSize x < 2 ^ 31) :
    let moved := min (7 * encodedSize x - x.size) (8 - x.size % 8)
    ∃ bits, decode (BitMap.new x.size).bits (encode x.bits x.size) = some bits ∧ ∀ i < x.size,
      (BitMap.mk x.size bits).get i =
        if i < 8 * (x.size / 8) then x.get i
        else if i < 8 * (x.size / 8) + moved then true
        else x.get (i - moved) := by
  have hpacks := decodeFrom_packs 0 (show 0 < 8 by decide) (encode x.bits x.size)
  rw [show toBits 0 0 = [] from rfl, List.nil_append, (encodes_encode x.bits x.size).expand_eq, length_stream,
    length_encode] at hpacks
  rw [decode, length_encode, if_pos hindexed]
  refine ⟨_, rfl, fun i hi => hpacks.arrived (fun j hj => ?_) hi⟩
  show (if j < _ then _ else _) = _
  rw [if_pos hj]
  rfl

end Sddr.Codec.BinaryToUTF8
