import Mathlib.Data.BitVec
import Sddr.Lib.CheckDigit
import Sddr.Radio.Addresses
import Sddr.Radio.Lemmas.Identity

/-!
# Checksums of addresses

The last nibble of each half is the check digit of the others. The accumulator has 8 bits, of which the lower 4 add up by
themselves.
-/

namespace Sddr.Device.Address
open Sddr.Lib Sddr.Radio

/-! ## Nibbles -/

theorem lowNibble_add (b c : Byte) : lowNibble (b + c) = lowNibble b + lowNibble c := by
  exact BitVec.setWidth_add b c (by decide)

theorem lowNibble_shiftRight (b : Byte) : lowNibble (b >>> 4) = highNibble b := by
  ext i hi
  simp [lowNibble, highNibble]

theorem and_low (b : Byte) : b &&& 0x0F = (lowNibble b).setWidth 8 := by
  revert b
  decide

theorem lowNibble_setWidth (d : BitVec 4) : lowNibble (d.setWidth 8) = d := by
  revert d
  decide

theorem lowNibble_or (b : Byte) (d : BitVec 4) : lowNibble ((b &&& 0xF0) ||| d.setWidth 8) = d := by
  have hb : lowNibble (b &&& 0xF0) = 0 := by
    revert b
    decide
  rw [lowNibble, BitVec.extractLsb'_or, ← lowNibble, ← lowNibble, hb, lowNibble_setWidth]
  exact BitVec.zero_or

theorem highNibble_or (b : Byte) (d : BitVec 4) : highNibble ((b &&& 0xF0) ||| d.setWidth 8) = highNibble b := by
  have hb : highNibble (b &&& 0xF0) = highNibble b := by
    revert b
    decide
  have hd : highNibble (d.setWidth 8) = 0 := by
    revert d
    decide
  rw [highNibble, BitVec.extractLsb'_or, ← highNibble, ← highNibble, hb, hd]
  exact BitVec.or_zero

theorem setWidth_inj {d e : BitVec 4} : d.setWidth 8 = e.setWidth 8 ↔ d = e := by
  constructor
  · intro heq
    rw [← lowNibble_setWidth d, heq, lowNibble_setWidth]
  · rintro rfl
    rfl

theorem nibbles_concat (part : List Byte) (b : Byte) :
    nibbles (part ++ [b]) = nibbles part ++ [highNibble b] ++ [lowNibble b] := by
  simp [nibbles]

theorem length_nibbles (part : List Byte) : (nibbles part).length = 2 * part.length := by
  induction part with
  | nil => rfl
  | cons b part ih =>
      rw [nibbles, List.flatMap_cons, List.length_append, ← nibbles, ih, List.length_cons]
      simp
      omega

/-! ## The checksum of a half -/

theorem lowNibble_foldl (part : List Byte) (checksum : Byte) :
    lowNibble (part.foldl (fun (checksum b : Byte) => checksum + ((b >>> 4) + (b &&& 0x0F))) checksum)
      = lowNibble checksum + (nibbles part).sum := by
  induction part generalizing checksum with
  | nil => simp [nibbles]
  | cons b part ih =>
      rw [List.foldl_cons, ih, lowNibble_add, lowNibble_add, lowNibble_shiftRight, and_low, lowNibble_setWidth]
      simp [nibbles, add_assoc]

theorem computeChecksum_concat (part : List Byte) (b : Byte) :
    computeChecksum (part ++ [b]) = (nibbles part ++ [highNibble b]).sum.setWidth 8 := by
  rw [computeChecksum, and_low, List.dropLast_concat, lowNibble_add, lowNibble_foldl, List.getLastD_concat,
    lowNibble_shiftRight]
  simp [lowNibble]

/-- The comparison that `verifyChecksum` makes for one half. -/
theorem checkDigit_iff {part : List Byte} (hpart : part ≠ []) :
    part.getLastD 0 &&& 0x0F = computeChecksum part ↔ CheckDigit (nibbles part) := by
  obtain rfl | ⟨part, b, rfl⟩ := part.eq_nil_or_concat'
  · exact absurd rfl hpart
  rw [nibbles_concat, checkDigit_concat, computeChecksum_concat, List.getLastD_concat, and_low, setWidth_inj]

theorem checkDigit_or (part : List Byte) (b : Byte) :
    CheckDigit (nibbles (part ++ [(b &&& 0xF0) ||| computeChecksum (part ++ [b])])) := by
  rw [computeChecksum_concat, nibbles_concat, checkDigit_concat, lowNibble_or, highNibble_or]

theorem checkDigit_withPartial (value mask : Byte) {part : List Byte} (hpart : part ≠ []) :
    CheckDigit (nibbles (withPartial value mask part)) := by
  cases part with
  | nil => exact absurd rfl hpart
  | cons b rest =>
      rw [withPartial]
      generalize hbytes : ((b &&& ~~~mask) ||| (value &&& mask)) :: rest = bytes
      obtain rfl | ⟨init, c, rfl⟩ := bytes.eq_nil_or_concat'
      · cases hbytes
      rw [List.dropLast_concat, List.getLastD_concat]
      exact checkDigit_or init c

theorem verifyChecksum_iff {a : Address} {h : Nat} (ha : a.length = 2 * h) (hh : 0 < h) :
    a.verifyChecksum = true ↔ CheckDigit (nibbles (a.take h)) ∧ CheckDigit (nibbles (a.drop h)) := by
  have htake : (a.take h).getLastD 0 = a.getD (h - 1) 0 := by
    rw [List.getLastD_eq_getLast?, List.getLast?_eq_getElem?, List.length_take, List.getElem?_take]
    simp [List.getD_eq_getElem?_getD, ha, show min h (2 * h) = h by omega, show h - 1 < h by omega]
  have hdrop : (a.drop h).getLastD 0 = a.getD (a.length - 1) 0 := by
    rw [List.getLastD_eq_getLast?, List.getLast?_eq_getElem?, List.length_drop, List.getElem?_drop,
      List.getD_eq_getElem?_getD, ha]
    congr 2
    omega
  rw [verifyChecksum, Bool.and_eq_true, beq_iff_eq, beq_iff_eq, half_eq ha, ← htake, ← hdrop, checkDigit_iff,
    checkDigit_iff]
  · exact List.ne_nil_of_length_pos (by simp [ha]; omega)
  · exact List.ne_nil_of_length_pos (by simp [ha]; omega)

/-! ## A changed nibble -/

theorem getElem?_nibbles (part : List Byte) (i : Nat) :
    (nibbles part)[2 * i]? = part[i]?.map highNibble ∧ (nibbles part)[2 * i + 1]? = part[i]?.map lowNibble := by
  induction part generalizing i with
  | nil => simp [nibbles]
  | cons b part ih =>
      cases i with
      | zero => simp [nibbles]
      | succ i => simpa [nibbles, Nat.mul_add] using ih i

theorem nibbles_set_high {part : List Byte} {i : Nat} (hi : i < part.length) {b : Byte}
    (hlow : lowNibble part[i] = lowNibble b) : nibbles (part.set i b) = (nibbles part).set (2 * i) (highNibble b) := by
  induction part generalizing i with
  | nil => cases hi
  | cons c part ih =>
      cases i with
      | zero => simpa [nibbles] using hlow.symm
      | succ i => simpa [nibbles, Nat.mul_add] using ih (Nat.lt_of_succ_lt_succ hi) hlow

theorem nibbles_set_low {part : List Byte} {i : Nat} (hi : i < part.length) {b : Byte}
    (hhigh : highNibble part[i] = highNibble b) :
    nibbles (part.set i b) = (nibbles part).set (2 * i + 1) (lowNibble b) := by
  induction part generalizing i with
  | nil => cases hi
  | cons c part ih =>
      cases i with
      | zero => simpa [nibbles] using hhigh.symm
      | succ i => simpa [nibbles, Nat.mul_add] using ih (Nat.lt_of_succ_lt_succ hi) hhigh

theorem not_checkDigit_set {part : List Byte} (h : CheckDigit (nibbles part)) {i : Nat} (hi : i < part.length)
    {b : Byte} (hb : OneNibble part[i] b) : ¬ CheckDigit (nibbles (part.set i b)) := by
  have hlength := length_nibbles part
  obtain ⟨hhigh, hlow⟩ := getElem?_nibbles part i
  rw [List.getElem?_eq_getElem (by omega), List.getElem?_eq_getElem hi] at hhigh hlow
  rcases hb with ⟨hne, heq⟩ | ⟨heq, hne⟩
  · rw [nibbles_set_high hi heq]
    refine h.not_set (by omega) ?_
    rw [Option.some.inj hhigh]
    exact hne.symm
  · rw [nibbles_set_low hi heq]
    refine h.not_set (by omega) ?_
    rw [Option.some.inj hlow]
    exact hne.symm

/-! ## One round -/

theorem computeChecksum_and (part : List Byte) (b : Byte) :
    computeChecksum (part ++ [b &&& 0xF0]) = computeChecksum (part ++ [b]) := by
  have hhigh : highNibble (b &&& 0xF0) = highNibble b := by
    revert b
    decide
  rw [computeChecksum_concat, computeChecksum_concat, hhigh]

theorem setChecksum_append (front part : List Byte) (b : Byte) (back : List Byte) :
    setChecksum (front ++ (part ++ b :: back)) (front.length + part.length) front.length (part.length + 1)
      = front ++ (part ++ ((b &&& 0xF0) ||| computeChecksum (part ++ [b])) :: back) := by
  have hpart : ∀ c : Byte, (part ++ c :: back).take (part.length + 1) = part ++ [c] := fun c => by
    simp [List.take_append]
  simpa [setChecksum, hpart] using congrArg ((b &&& 0xF0) ||| ·) (computeChecksum_and part b)

theorem length_setPartial (part : List Byte) (value mask : Byte) : (setPartial part value mask).length = part.length :=
  List.length_set

theorem setPartial_append {part : List Byte} (hpart : part ≠ []) (back : List Byte) (value mask : Byte) :
    setPartial (part ++ back) value mask = setPartial part value mask ++ back := by
  cases part with
  | nil => exact absurd rfl hpart
  | cons b part => rfl

/-- The half that starts an address gets its partial value first, and then its checksum. -/
theorem setChecksum_setPartial {part : List Byte} {half : Nat} (hpart : part.length = half) (hhalf : 0 < half)
    (back : List Byte) (value mask : Byte) :
    setChecksum (setPartial (part ++ back) value mask) (half - 1) 0 half = withPartial value mask part ++ back := by
  subst hpart
  rw [setPartial_append (List.ne_nil_of_length_pos hhalf)]
  cases part with
  | nil => cases hhalf
  | cons b rest =>
      rw [withPartial, ← length_setPartial (b :: rest) value mask]
      change setChecksum (((b &&& ~~~mask) ||| (value &&& mask)) :: rest ++ back) _ 0 _ = _
      generalize hbytes : ((b &&& ~~~mask) ||| (value &&& mask)) :: rest = bytes
      have hset : setPartial (b :: rest) value mask = bytes := hbytes
      rw [hset]
      obtain rfl | ⟨init, c, rfl⟩ := bytes.eq_nil_or_concat'
      · cases hbytes
      have hround := setChecksum_append [] init c back
      simp only [List.nil_append, List.length_nil, Nat.zero_add] at hround
      rw [List.append_assoc, List.singleton_append, List.length_append, List.length_singleton, Nat.add_sub_cancel,
        hround, List.dropLast_concat, List.getLastD_concat, List.append_assoc, List.singleton_append]

theorem shiftRound_eq {a : Address} {h : Nat} (ha : a.length = 2 * h) (hh : 0 < h) (value mask : Byte)
    (rand : Nat → Byte) : shiftRound a value mask rand = shiftWithPartial a value mask rand := by
  rw [shiftRound, shiftWithPartial, half_eq ha, show a.length - (h + h) = 0 by omega, List.replicate_zero,
    List.append_nil]
  exact setChecksum_setPartial (by simp) hh _ value mask

/-- The second half has no partial value. -/
theorem generateSized_eq {h : Nat} (hh : 0 < h) (value mask : Byte) (rand : Nat → Byte) :
    ∃ part, part.length = h ∧ CheckDigit (nibbles part) ∧
      generateSized (2 * h) value mask rand = withPartial value mask ((List.range h).map rand) ++ part := by
  have hsplit : (List.range (2 * h)).map rand
      = (List.range h).map rand ++ (List.range h).map fun i => rand (h + i) := by
    rw [Nat.two_mul, List.range_add, List.map_append, List.map_map]
    rfl
  obtain hnil | ⟨init, c, hpart⟩ := ((List.range h).map fun i => rand (h + i)).eq_nil_or_concat'
  · rw [List.map_eq_nil_iff, List.range_eq_nil] at hnil
    omega
  have hinit : init.length + 1 = h := by simpa using (congrArg List.length hpart).symm
  refine ⟨init ++ [(c &&& 0xF0) ||| computeChecksum (init ++ [c])], by simpa using hinit, checkDigit_or init c, ?_⟩
  rw [generateSized, Nat.mul_div_cancel_left h Nat.two_pos, hsplit, setChecksum_setPartial (by simp) hh, hpart]
  have hround := setChecksum_append (withPartial value mask ((List.range h).map rand)) init c []
  rw [length_withPartial, List.length_map, List.length_range, hinit] at hround
  rw [show 2 * h - 1 = h + init.length by omega, hround]

/-- The checksum of a half of at least two bytes is not in the byte with the partial value. -/
theorem getPartialValue_withPartial (value mask : Byte) {part : List Byte} (hpart : 2 ≤ part.length)
    (back : List Byte) : getPartialValue (withPartial value mask part ++ back) mask = value &&& mask := by
  match part with
  | b :: c :: rest =>
      simp only [getPartialValue, withPartial, List.dropLast_cons_cons, List.cons_append, List.getD_cons_zero]
      ext i hi
      simp only [BitVec.getElem_and, BitVec.getElem_or, BitVec.getElem_not]
      cases mask[i] <;> simp

/-! ## Chains -/

theorem generateSized_valid {h : Nat} (hh : 2 ≤ h) (value mask : Byte) (rand : Nat → Byte) :
    (generateSized (2 * h) value mask rand).length = 2 * h ∧
      (generateSized (2 * h) value mask rand).verifyChecksum = true ∧
      (generateSized (2 * h) value mask rand).getPartialValue mask = value &&& mask := by
  have hpos : 0 < h := by omega
  obtain ⟨part, hpart, hcheck, heq⟩ := generateSized_eq hpos value mask rand
  have hfront : (withPartial value mask ((List.range h).map rand)).length = h := by simp [length_withPartial]
  have hlength : (generateSized (2 * h) value mask rand).length = 2 * h := by
    rw [heq, List.length_append, hfront, hpart, Nat.two_mul]
  refine ⟨hlength, ?_, ?_⟩
  · rw [verifyChecksum_iff hlength hpos, heq, List.take_left' hfront, List.drop_left' hfront]
    exact ⟨checkDigit_withPartial value mask (List.ne_nil_of_length_pos (by simpa using hpos)), hcheck⟩
  · rw [heq]
    exact getPartialValue_withPartial value mask (by simpa using hh) part

theorem shiftLoop_cases {a b : Address} {value mask : Byte} {rounds : List (Nat → Byte)}
    (hloop : shiftLoop a value mask rounds = some b) : b ≠ a ∧ ∃ rand, b = shiftRound a value mask rand := by
  induction rounds with
  | nil => cases hloop
  | cons rand rounds ih =>
      rw [shiftLoop] at hloop
      split at hloop
      next => exact ih hloop
      next hne =>
        cases hloop
        exact ⟨hne, rand, rfl⟩

theorem shiftLoop_valid {a b : Address} {h : Nat} (ha : a.length = 2 * h) (hh : 2 ≤ h)
    (hvalid : a.verifyChecksum = true) {value mask : Byte} {rounds : List (Nat → Byte)}
    (hloop : shiftLoop a value mask rounds = some b) :
    b.length = 2 * h ∧ b.verifyChecksum = true ∧ b.getPartialValue mask = value &&& mask ∧ b ≠ a ∧
      b.isShift a = true ∧ b.unshift.take h = a.take h := by
  have hpos : 0 < h := by omega
  obtain ⟨hne, rand, hround⟩ := shiftLoop_cases hloop
  rw [shiftRound_eq ha hpos] at hround
  have hlength : b.length = 2 * h := hround ▸ length_shiftWithPartial ha value mask rand
  have hdrop : b.drop h = a.take h := hround ▸ drop_shiftWithPartial ha value mask rand
  have hfront : (withPartial value mask ((List.range h).map rand)).length = h := by simp [length_withPartial]
  have hbytes : b = withPartial value mask ((List.range h).map rand) ++ a.take h := by
    rw [hround, shiftWithPartial, half_eq ha]
  refine ⟨hlength, ?_, ?_, hne, (isShift_iff hlength ha).mpr hdrop, ?_⟩
  · rw [verifyChecksum_iff hlength hpos, hdrop]
    refine ⟨?_, ((verifyChecksum_iff ha hpos).mp hvalid).1⟩
    rw [hbytes, List.take_left' hfront]
    exact checkDigit_withPartial value mask (List.ne_nil_of_length_pos (by simpa using hpos))
  · rw [hbytes]
    exact getPartialValue_withPartial value mask (by simpa using hh) _
  · have hunshift := hashed_unshift hlength
    rw [hashed, half_eq (by simp [unshift, hlength]; omega : b.unshift.length = 2 * h)] at hunshift
    rw [hunshift, hdrop]

/-- Each address of a chain is made from the one before. -/
theorem shiftChain_links {a : Address} {calls : List ShiftCall} {addresses : List Address}
    (hchain : shiftChain a calls = some addresses) :
    addresses.length = calls.length ∧
      ∀ (i : Nat) before (call : ShiftCall) next,
        (a :: addresses)[i]? = some before → calls[i]? = some call → addresses[i]? = some next →
        shiftLoop before call.value call.mask call.rounds = some next := by
  induction calls generalizing a addresses with
  | nil =>
      cases hchain
      exact ⟨rfl, fun i before call next _ hcall => by simp at hcall⟩
  | cons first calls ih =>
      obtain ⟨b, hloop, hrest⟩ := Option.bind_eq_some_iff.mp hchain
      obtain ⟨others, hothers, heq⟩ := Option.bind_eq_some_iff.mp hrest
      cases heq
      obtain ⟨hlength, hlinks⟩ := ih hothers
      refine ⟨congrArg Nat.succ hlength, fun i before call next hbefore hcall hnext => ?_⟩
      cases i with
      | zero =>
          cases hbefore
          cases hcall
          cases hnext
          exact hloop
      | succ i => exact hlinks i before call next hbefore hcall hnext

theorem shiftChain_valid {a : Address} {h : Nat} (ha : a.length = 2 * h) (hh : 2 ≤ h)
    (hvalid : a.verifyChecksum = true) {calls : List ShiftCall} {addresses : List Address}
    (hchain : shiftChain a calls = some addresses) :
    ∀ b ∈ a :: addresses, b.length = 2 * h ∧ b.verifyChecksum = true := by
  induction calls generalizing a addresses with
  | nil =>
      cases hchain
      exact fun b hb => by
        rw [List.mem_singleton.mp hb]
        exact ⟨ha, hvalid⟩
  | cons first calls ih =>
      obtain ⟨b, hloop, hrest⟩ := Option.bind_eq_some_iff.mp hchain
      obtain ⟨others, hothers, heq⟩ := Option.bind_eq_some_iff.mp hrest
      cases heq
      obtain ⟨hb, hbvalid, -⟩ := shiftLoop_valid ha hh hvalid hloop
      rintro c hc
      rcases List.mem_cons.mp hc with rfl | hc
      · exact ⟨ha, hvalid⟩
      · exact ih hb hbvalid hothers c hc

end Sddr.Device.Address
