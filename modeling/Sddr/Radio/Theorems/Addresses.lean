import Sddr.Radio.Lemmas.Addresses

/-! # Main results about addresses -/

namespace Sddr.Device
open Sddr.Lib

/-- Through any chain of shifts the addresses have their checksums and their partial values, and each is a shift of the
one before, from which it differs. -/
theorem Address.chain_valid {size : Nat} (heven : size % 2 = 0) (hsize : 4 ≤ size) (value mask : Byte)
    (rand : Nat → Byte) (calls : List Address.ShiftCall) (addresses : List Address)
    (hchain : (Address.generateSized size value mask rand).shiftChain calls = some addresses) :
    let first := Address.generateSized size value mask rand
    first.verifyChecksum = true ∧ first.getPartialValue mask = value &&& mask ∧
    addresses.length = calls.length ∧
    ∀ (i : Nat) before (call : Address.ShiftCall) next,
      (first :: addresses)[i]? = some before → calls[i]? = some call → addresses[i]? = some next →
      next.verifyChecksum = true ∧ next.getPartialValue call.mask = call.value &&& call.mask ∧
      next ≠ before ∧ next.isShift before = true ∧
      next.unshift.take (size / 2) = before.take (size / 2) := by
  intro first
  obtain ⟨h, rfl⟩ : ∃ h, size = 2 * h := ⟨size / 2, by omega⟩
  have hh : 2 ≤ h := by omega
  obtain ⟨hlength, hvalid, hpartial⟩ := Address.generateSized_valid hh value mask rand
  obtain ⟨hcount, hlinks⟩ := Address.shiftChain_links hchain
  have hall := Address.shiftChain_valid hlength hh hvalid hchain
  refine ⟨hvalid, hpartial, hcount, fun i before call next hbefore hcall hnext => ?_⟩
  obtain ⟨hbeforeLength, hbeforeValid⟩ := hall before (List.mem_of_getElem? hbefore)
  have hloop := hlinks i before call next hbefore hcall hnext
  rw [Nat.mul_div_cancel_left h Nat.two_pos]
  exact (Address.shiftLoop_valid hbeforeLength hh hbeforeValid hloop).2

/-- Six bytes, shifted twice, the second time after a round that yields the address itself. -/
theorem Address.chain_valid_six :
    let first := Address.generateSized 6 0x20 0x20 fun _ => 0x11
    let calls : List Address.ShiftCall :=
      [⟨0x20, 0x20, [fun _ => 0x11, fun _ => 0x22]⟩, ⟨0, 0x20, [fun i => BitVec.ofNat 8 i]⟩]
    ∃ addresses, first.shiftChain calls = some addresses ∧
      first.verifyChecksum = true ∧ first.getPartialValue 0x20 = 0x20 &&& 0x20 ∧
      addresses.length = calls.length ∧
      ∀ (i : Nat) before (call : Address.ShiftCall) next,
        (first :: addresses)[i]? = some before → calls[i]? = some call → addresses[i]? = some next →
        next.verifyChecksum = true ∧ next.getPartialValue call.mask = call.value &&& call.mask ∧
        next ≠ before ∧ next.isShift before = true ∧
        next.unshift.take (6 / 2) = before.take (6 / 2) := by
  intro first calls
  have hsome : (first.shiftChain calls).isSome = true := by decide
  obtain ⟨addresses, hchain⟩ := Option.isSome_iff_exists.mp hsome
  exact ⟨addresses, hchain, Address.chain_valid (by decide) (by decide) 0x20 0x20 _ calls addresses hchain⟩

/-- An address with a changed nibble does not have its checksums. -/
theorem Address.verifyChecksum_nibble {a : Address} (heven : a.length % 2 = 0) (hsize : 2 ≤ a.length)
    (hvalid : a.verifyChecksum = true) {i : Nat} (hi : i < a.length) {b : Byte} (hb : Address.OneNibble a[i] b) :
    Address.verifyChecksum (a.set i b) = false := by
  obtain ⟨h, hlength⟩ : ∃ h, a.length = 2 * h := ⟨a.length / 2, by omega⟩
  have hpos : 0 < h := by omega
  obtain ⟨hfront, hback⟩ := (Address.verifyChecksum_iff hlength hpos).mp hvalid
  rw [Bool.eq_false_iff, ne_eq, Address.verifyChecksum_iff (by rw [List.length_set, hlength]) hpos]
  rintro ⟨hfront', hback'⟩
  by_cases hih : i < h
  · rw [List.take_set] at hfront'
    refine Address.not_checkDigit_set hfront (by simp; omega) ?_ hfront'
    rwa [List.getElem_take]
  · rw [List.drop_set, if_neg hih] at hback'
    refine Address.not_checkDigit_set hback (by simp; omega) ?_ hback'
    rw [List.getElem_drop]
    simpa [show h + (i - h) = i by omega] using hb

/-- The checksum nibble of the first half of a generated address. -/
theorem Address.verifyChecksum_nibble_six :
    let a := Address.generateSized 6 0 0 fun i => BitVec.ofNat 8 (16 * i)
    a.verifyChecksum = true ∧ Address.OneNibble (a.getD 2 0) 0x22 ∧
      Address.verifyChecksum (a.set 2 0x22) = false :=
  ⟨by decide, by decide, Address.verifyChecksum_nibble (by decide) (by decide) (by decide) (by decide) (by decide)⟩

end Sddr.Device
