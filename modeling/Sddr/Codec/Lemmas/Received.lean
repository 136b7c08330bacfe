import Sddr.Codec.Lemmas.BinaryToUTF8
import Sddr.Codec.Received

/-!
# What is read of received data

Reading past the end of a message is the same as meeting a length that does not fit. What `decode` writes is counted by
the bits of the characters.
-/

namespace Sddr.Codec
open Sddr.Lib

/-! ## parsePSIMessage -/

section
variable {w : Nat} {refuses : List Str → Nat → Bool} {message : ByteVector w} {output : List Str}

theorem slice_eq_some {α : Type} {source elements : List α} {pos n : Nat} (h : slice source pos n = some elements) :
    elements.length = n ∧ source.drop pos = elements ++ source.drop (pos + n) := by
  have hle := slice_le h
  rw [slice, if_pos hle] at h
  cases h
  refine ⟨by rw [List.length_take, List.length_drop]; omega, ?_⟩
  rw [← List.drop_drop, List.take_append_drop]

theorem slice_eq_none {α : Type} {source : List α} {pos n : Nat} (hpos : pos ≤ source.length)
    (h : slice source pos n = none) : (source.drop pos).length < n := by
  unfold slice at h
  split_ifs at h with hle
  rw [List.length_drop]
  omega

/-- A message that goes on starts with four bytes of a length. -/
theorem Elements.cases_of_pos {bytes : List Byte} (h : Elements refuses output bytes) (hpos : 0 < bytes.length) :
    ∃ size rest, bytes = size ++ rest ∧ size.length = 4 ∧ (refuses output (ofLittleEndian size) = true ∨
      ∃ elem tail, rest = elem ++ tail ∧ elem.length = ofLittleEndian size ∧ Elements refuses (output ++ [elem]) tail) := by
  cases h with
  | nil => exact absurd hpos (Nat.lt_irrefl 0)
  | refused hsize hrefused => exact ⟨_, _, rfl, hsize, Or.inl hrefused⟩
  | elem hsize helem htail => exact ⟨_, _, rfl, hsize, Or.inr ⟨_, _, rfl, helem, htail⟩⟩

/-- A length is read off the four bytes it starts with. -/
theorem elements_append_iff {size rest : List Byte} (hsize : size.length = 4) :
    Elements refuses output (size ++ rest) ↔ refuses output (ofLittleEndian size) = true ∨
      ∃ elem tail, rest = elem ++ tail ∧ elem.length = ofLittleEndian size ∧ Elements refuses (output ++ [elem]) tail := by
  constructor
  · intro h
    obtain ⟨size', rest', heq, hsize', hor⟩ := h.cases_of_pos (by rw [List.length_append]; omega)
    obtain ⟨rfl, rfl⟩ := List.append_inj heq (hsize.trans hsize'.symm)
    exact hor
  · rintro (hrefused | ⟨elem, tail, rfl, helem, htail⟩)
    · exact .refused hsize hrefused
    · exact .elem hsize helem htail

theorem parseElementsIn_iff {pos : Nat} (hpos : pos ≤ message.bytes.length) :
    parseElementsIn refuses message pos output ≠ .outOfRange ↔ Elements refuses output (message.bytes.drop pos) := by
  have hlt := message.size_lt
  fun_induction parseElementsIn refuses message pos output with
  | case1 pos output hmore hsize =>
      have hshort := slice_eq_none hpos hsize
      refine iff_of_false (fun h => h rfl) fun h => ?_
      obtain ⟨size, rest, heq, hlength, -⟩ := h.cases_of_pos (by rw [List.length_drop]; omega)
      rw [heq, List.length_append] at hshort
      omega
  | case2 pos output hmore size hsize elemLength hrefused =>
      obtain ⟨hlength, hdrop⟩ := slice_eq_some hsize
      rw [hdrop]
      exact iff_of_true (fun h => by cases h) (.refused hlength hrefused)
  | case3 pos output hmore size hsize elemLength hrefused helem =>
      have hle := slice_le hsize
      obtain ⟨hlength, hdrop⟩ := slice_eq_some hsize
      rw [Nat.mod_eq_of_lt (by omega)] at helem
      have hshort := slice_eq_none hle helem
      rw [hdrop, elements_append_iff hlength]
      refine iff_of_false (fun h => h rfl) ?_
      rintro (hnow | ⟨elem, tail, heq, hcount, -⟩)
      · exact hrefused hnow
      · rw [heq, List.length_append] at hshort
        omega
  | case4 pos output hmore size hsize elemLength hrefused elem helem ih =>
      have hle := slice_le hsize
      obtain ⟨hlength, hdrop⟩ := slice_eq_some hsize
      have hpos4 : (pos + 4) % 2 ^ w = pos + 4 := Nat.mod_eq_of_lt (by omega)
      rw [hpos4] at helem ih
      have hend := slice_le helem
      obtain ⟨hcount, hrest⟩ := slice_eq_some helem
      have hposEnd : (pos + 4 + elemLength) % 2 ^ w = pos + 4 + elemLength := Nat.mod_eq_of_lt (by omega)
      rw [hposEnd] at ih
      rw [hpos4, hposEnd]
      refine (ih hend).trans ?_
      rw [hdrop, elements_append_iff hlength, or_iff_right hrefused, hrest]
      constructor
      · intro htail
        exact ⟨elem, _, rfl, hcount, htail⟩
      · rintro ⟨elem', tail', heq, hcount', htail⟩
        obtain ⟨rfl, rfl⟩ := List.append_inj heq (hcount.trans hcount'.symm)
        exact htail
  | case5 pos output hdone =>
      rw [List.drop_eq_nil_of_le (Nat.not_lt.mp hdone)]
      exact iff_of_true (fun h => by cases h) .nil

/-- Where strings are never refused, what is returned is what `parsePSIMessage` gives. -/
theorem parseElementsIn_eq (message : ByteVector w) (pos : Nat) (output : List Str) :
    parseElementsIn (fun _ _ => false) message pos output
      = ((parseElements message.bytes pos).map (output ++ ·)).elim .outOfRange .returns := by
  have hlt := message.size_lt
  fun_induction parseElementsIn (fun _ _ => false) message pos output with
  | case1 pos output hmore hsize =>
      rw [parseElements, if_pos hmore, hsize]
      rfl
  | case2 pos output hmore size hsize elemLength hrefused => cases hrefused
  | case3 pos output hmore size hsize elemLength hrefused helem =>
      have hle := slice_le hsize
      rw [Nat.mod_eq_of_lt (by omega)] at helem
      rw [parseElements, if_pos hmore, hsize, Option.bind_some]
      dsimp only
      rw [helem]
      rfl
  | case4 pos output hmore size hsize elemLength hrefused elem helem ih =>
      have hle := slice_le hsize
      have hpos4 : (pos + 4) % 2 ^ w = pos + 4 := Nat.mod_eq_of_lt (by omega)
      rw [hpos4] at helem ih
      have hend := slice_le helem
      have hposEnd : (pos + 4 + elemLength) % 2 ^ w = pos + 4 + elemLength := Nat.mod_eq_of_lt (by omega)
      rw [hposEnd] at ih
      rw [hpos4, hposEnd, ih]
      conv_rhs => rw [parseElements, if_pos hmore, hsize, Option.bind_some]
      dsimp only
      rw [helem, Option.bind_some, Option.map_map]
      congr 2
      funext rest
      exact List.append_assoc output [elem] rest
  | case5 pos output hdone =>
      rw [parseElements, if_neg hdone, Option.map_some, List.append_nil]
      rfl

end

/-! ## decode -/

namespace BinaryToUTF8

variable {output name : List Byte}

theorem length_drain (value n : Nat) : (drain value n).1.length = n / 8 := by
  fun_induction drain value n with
  | case1 n hn rest ih =>
      rw [List.length_cons, ih]
      omega
  | case2 n hn =>
      rw [List.length_nil]
      omega

/-- The whole bytes are stored one by one. -/
theorem drainIn_eq (value n : Nat) {outputPos : Nat} (hpos : outputPos ≤ output.length) :
    drainIn output outputPos value n = (splice output outputPos (drain value n).1).map fun output =>
      (output, outputPos + (drain value n).1.length, (drain value n).2) := by
  fun_induction drainIn output outputPos value n with
  | case1 output outputPos n hn hroom ih =>
      rw [List.length_set] at ih
      have hdrain : drain value n
          = ([BitVec.ofNat 8 (value >>> (n - 8) &&& 0xFF)] ++ (drain value (n - 8)).1, (drain value (n - 8)).2) := by
        rw [drain, if_pos hn]
        rfl
      rw [ih (by omega), hdrain]
      dsimp only
      rw [← splice_splice, splice_singleton, if_pos hroom, Option.bind_some, List.length_append, List.length_singleton,
        ← Nat.add_assoc]
  | case2 output outputPos n hn hroom =>
      rw [drain, if_pos hn, splice, if_neg (by rw [List.length_cons]; omega)]
      rfl
  | case3 output outputPos n hn =>
      rw [drain, if_neg hn, splice_nil hpos]
      rfl

/-- What is stored behind the whole bytes is stored together with them. -/
theorem drainIn_bind {outputPos : Nat} {P : Prop} [Decidable P] {bytes : List Byte} (value n : Nat)
    (hpos : outputPos ≤ output.length) {f : List Byte × Nat × Nat → Option (List Byte)}
    (hrest : ∀ output', output'.length = output.length → outputPos + (drain value n).1.length ≤ output.length →
      f (output', outputPos + (drain value n).1.length, (drain value n).2)
        = if P then splice output' (outputPos + (drain value n).1.length) bytes else none) :
    (drainIn output outputPos value n).bind f
      = if P then splice output outputPos ((drain value n).1 ++ bytes) else none := by
  rw [drainIn_eq value n hpos, Option.bind_map]
  have hstep : ∀ output' ∈ splice output outputPos (drain value n).1,
      f (output', outputPos + (drain value n).1.length, (drain value n).2)
        = if P then splice output' (outputPos + (drain value n).1.length) bytes else none := fun output' hdrain =>
    hrest output' (length_splice hdrain) (splice_eq_some hdrain).1
  refine (Option.bind_congr hstep).trans ?_
  by_cases hP : P
  · simp only [if_pos hP]
    exact splice_splice output _ bytes outputPos
  · simp only [if_neg hP]
    exact Option.bind_fun_none _

theorem snd_drain (value n : Nat) : (drain value n).2 = n % 8 := by
  fun_induction drain value n with
  | case1 n hn rest ih =>
      rw [ih]
      omega
  | case2 n hn => exact (Nat.mod_eq_of_lt (Nat.not_le.mp hn)).symm

/-- The byte behind one of the name is in the name or its terminator. -/
theorem getElem?_terminated {i : Nat} (hi : i < name.length) :
    (name ++ [0])[i + 1]? = some ((name.drop (i + 1)).headD 0) := by
  by_cases hmore : i + 1 < name.length
  · rw [List.getElem?_append_left hmore, List.getElem?_eq_getElem hmore, List.drop_eq_getElem_cons hmore]
    rfl
  · have hend : i + 1 = name.length := by omega
    rw [List.drop_eq_nil_of_le hend.ge, hend, List.getElem?_concat_length]
    rfl

theorem numDecoded_lead {byte : Byte} (hlead : byte &&& 0xC0 = 0xC0) (rest : List Byte) :
    numDecoded (byte :: rest) = 2 + numDecoded rest.tail := by
  unfold numDecoded
  cases rest with
  | nil =>
      have hends : endsWithLead [byte] = true := decide_eq_true hlead
      rw [hends]
      rfl
  | cons second rest =>
      rw [endsWithLead, if_pos hlead, List.length_cons, List.length_cons, List.tail_cons]
      omega

theorem numDecoded_single {byte : Byte} (hsingle : byte &&& 0xC0 ≠ 0xC0) (rest : List Byte) :
    numDecoded (byte :: rest) = 1 + numDecoded rest := by
  unfold numDecoded
  cases rest with
  | nil =>
      have hends : endsWithLead [byte] = false := decide_eq_false hsingle
      rw [hends]
      rfl
  | cons second rest =>
      rw [endsWithLead, if_neg hsingle, List.length_cons]
      omega

/-- What the loop reads is there, up to the terminator; what it writes are the bytes that `decodeFrom` gives. -/
theorem decodeLoopIn_eq (name output : List Byte) {i outputPos : Nat} (value n : Nat) (hi : i < 2 ^ 31)
    (hpos : outputPos ≤ output.length) :
    decodeLoopIn (name ++ [0]) name.length output i outputPos value n
      = if i + numDecoded (name.drop i) < 2 ^ 31 then splice output outputPos (decodeFrom value n (name.drop i))
        else none := by
  induction hleft : name.length - i using Nat.strong_induction_on generalizing i outputPos value n output with
  | h left ih =>
      rw [decodeLoopIn]
      split
      · next hmore =>
          have hbyte : (name ++ [0])[i]? = some name[i] := by
            rw [List.getElem?_append_left hmore, List.getElem?_eq_getElem hmore]
          have hdrop : name.drop i = name[i] :: name.drop (i + 1) := List.drop_eq_getElem_cons hmore
          rw [hbyte, Option.bind_some, hdrop, decodeFrom]
          split
          · next hlead =>
              rw [numDecoded_lead hlead, List.tail_drop, ← Nat.add_assoc i]
              split
              · next hindex =>
                  rw [getElem?_terminated hmore, Option.bind_some]
                  exact drainIn_bind _ _ hpos fun output' hlength hfits =>
                    ih _ (by omega) output' _ _ hindex (hlength ▸ hfits) rfl
              · next hindex => rw [if_neg (by omega)]
          · next hsingle =>
              rw [numDecoded_single hsingle, ← Nat.add_assoc i]
              split
              · next hindex =>
                  exact drainIn_bind _ _ hpos fun output' hlength hfits =>
                    ih _ (by omega) output' _ _ hindex (hlength ▸ hfits) rfl
              · next hindex => rw [if_neg (by omega)]
      · next hdone =>
          rw [List.drop_eq_nil_of_le (Nat.not_lt.mp hdone), show numDecoded [] = 0 from rfl, Nat.add_zero, if_pos hi,
            decodeFrom]
          split_ifs with hrest hroom
          · rw [splice_singleton, if_pos hroom]
          · rw [splice_singleton, if_neg hroom]
          · rw [splice_nil hpos]

theorem length_decodeFrom (value : Nat) {n : Nat} (hn : n < 8) (name : List Byte) :
    (decodeFrom value n name).length = (n + 7 * numDecoded name + 7) / 8 := by
  fun_induction decodeFrom value n name with
  | case1 value n hrest =>
      rw [List.length_singleton, show numDecoded [] = 0 from rfl]
      omega
  | case2 value n hrest =>
      rw [List.length_nil, show numDecoded [] = 0 from rfl]
      omega
  | case3 value n byte name hlead value' out ih =>
      rw [List.length_append, ih (drain_lt _ _), length_drain, numDecoded_lead hlead, snd_drain]
      omega
  | case4 value n byte name hsingle value' out ih =>
      rw [List.length_append, ih (drain_lt _ _), length_drain, numDecoded_single hsingle, snd_drain]
      omega

/-- On arrays that end, the bytes of `decodeFrom` are stored, if there is room and the index counts that far. -/
theorem decodeIn_eq (output name : List Byte) :
    decodeIn output name = if numDecoded name < 2 ^ 31 then splice output 0 (decodeFrom 0 0 name) else none := by
  have hloop := decodeLoopIn_eq name output 0 0 (Nat.two_pow_pos 31) (Nat.zero_le output.length)
  rw [List.drop_zero, Nat.zero_add] at hloop
  exact hloop

theorem decodeIn_isSome (output name : List Byte) :
    (decodeIn output name).isSome ↔ numDecoded name < 2 ^ 31 ∧ (7 * numDecoded name + 7) / 8 ≤ output.length := by
  rw [decodeIn_eq, splice, length_decodeFrom 0 (Nat.succ_pos 7)]
  split_ifs with hindex hfits
  · exact iff_of_true rfl ⟨hindex, by omega⟩
  · exact iff_of_false (by simp) (by omega)
  · exact iff_of_false (by simp) fun h => hindex h.1

theorem length_le_numDecoded (name : List Byte) : name.length ≤ numDecoded name := Nat.le_add_right _ _

theorem numDecoded_le (name : List Byte) : numDecoded name ≤ name.length + 1 :=
  Nat.add_le_add_left (Bool.toNat_le _) _

/-- What is not stored to is kept. -/
theorem decode_congr {output output' m m' : Mem} {name : List Byte} (h : decode output name = some m)
    (h' : decode output' name = some m') {i : Nat} (hi : output i = output' i) : m i = m' i := by
  rw [decode] at h h'
  split_ifs at h h' with hindex
  obtain rfl := Option.some.inj h
  obtain rfl := Option.some.inj h'
  simp only [Mem.copy, hi]

/-- As far as there is room, `decode` stores the same bytes in memory without an end. -/
theorem decode_of_decodeIn {output name bytes : List Byte} (h : decodeIn output name = some bytes) :
    decode (Mem.ofList output) name = some (Mem.ofList bytes) := by
  rw [decodeIn_eq] at h
  split_ifs at h with hindex
  rw [decode, if_pos (Nat.lt_of_le_of_lt (length_le_numDecoded name) hindex)]
  obtain ⟨-, rfl⟩ := splice_eq_some h
  refine congrArg some (funext fun i => ?_)
  rw [List.take_zero, List.nil_append, Nat.zero_add, Mem.copy, Mem.ofList, Mem.ofList, Mem.ofList]
  split_ifs with hi
  · rw [List.getD_append _ _ _ _ hi]
  · rw [List.getD_append_right _ _ _ _ (Nat.not_lt.mp hi), List.getD_eq_getElem?_getD, List.getD_eq_getElem?_getD,
      List.getElem?_drop, Nat.add_sub_cancel' (Nat.not_lt.mp hi)]

end BinaryToUTF8

end Sddr.Codec
