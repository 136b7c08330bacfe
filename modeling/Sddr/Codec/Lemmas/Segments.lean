import Mathlib.Order.Fin.Basic
import Sddr.Codec.Lemmas.BitMap
import Sddr.Codec.Lemmas.Bloom
import Sddr.Codec.Segments

/-!
# Reassembling a filter

A segment that is stored has the bits of the filter it is from, and leaves the other segments as they are.
-/

namespace Sddr.Codec.SegmentedBloomFilter
open Sddr.Lib

variable {P : Type} {K : Nat} {sizes : List Nat}

/-- The constructor pushes the starts of the segments. -/
theorem getD_offsetsFrom (start : Nat) {s : Nat} (hs : s < sizes.length) :
    (offsetsFrom start sizes).getD s 0 = start + segmentStart sizes s := by
  induction sizes generalizing start s with
  | nil => exact absurd hs (Nat.not_lt_zero s)
  | cons size sizes ih =>
      cases s with
      | zero => rfl
      | succ s =>
          rw [offsetsFrom, List.getD_cons_succ, ih _ (Nat.lt_of_succ_lt_succ hs), segmentStart, segmentStart,
            List.take_succ_cons, List.sum_cons, Nat.add_assoc]

namespace Segmented

variable (f r : Segmented P K sizes) (t : Transfer sizes)

theorem segmentOffset_eq {s : Nat} (hs : s < sizes.length) : f.filter.segmentOffset s = segmentStart sizes s := by
  rw [segmentOffset, f.segmentOffsets_eq, getD_offsetsFrom 0 hs, Nat.zero_add]

theorem getSegmentSize_eq {s : Nat} (hs : s < sizes.length) :
    segmentStart sizes s + f.filter.getSegmentSize s = segmentStart sizes (s + 1) := by
  rw [getSegmentSize, f.segmentSizes_eq, segmentStart_succ hs, List.getD_eq_getElem?_getD, List.getElem?_eq_getElem hs,
    Option.getD_some]

/-- The segments `done` of `f` have arrived. -/
structure Holds (done : List (Fin sizes.length)) : Prop where
  bits : ∀ s : Fin sizes.length, ∀ j, InSegment sizes s j →
    r.filter.bits.get j = if s ∈ done then f.filter.bits.get j else true
  filled : ∀ s : Fin sizes.length, r.filter.isFilled s = true ↔ s ∈ done

variable {f r}

/-- No bit of `f` is missing, whatever has arrived. -/
theorem Holds.superset {done : List (Fin sizes.length)} (h : Holds f r done) {j : Nat} (hj : j < sizes.sum)
    (hget : f.filter.bits.get j = true) : r.filter.bits.get j = true := by
  obtain ⟨s, hs, hin⟩ := exists_inSegment hj
  rw [h.bits ⟨s, hs⟩ j hin, hget, ite_self]

theorem Holds.query {done : List (Fin sizes.length)} (h : Holds f r done) (hpos : 0 < sizes.sum)
    (sha256 : List Byte → Digest) {pre value : List Byte} (hquery : f.filter.query sha256 pre value = true) :
    r.filter.query sha256 pre value = true := by
  rw [BloomFilter.query, BloomFilter.queryHash_iff] at hquery ⊢
  intro k hk
  have hbit := hquery k (by rw [f.K_eq, ← r.K_eq]; exact hk)
  rw [f.M_eq] at hbit
  rw [r.M_eq]
  exact h.superset (Nat.mod_lt _ hpos) hbit

variable [FloatOps P]

/-- The two copies of a segment, out of `f` and into the filter. -/
theorem get_receive (j : Nat) :
    (f.receive r t).filter.bits.get j
      = if InSegment sizes t.segment j then f.filter.bits.get j else r.filter.bits.get j := by
  have hs := t.segment.isLt
  have hstart := f.segmentOffset_eq hs
  have hend := f.getSegmentSize_eq hs
  change ((BitMap.copyFrom _ _ _ _ _).get j) = _
  rw [BitMap.get_copyFrom, r.segmentOffset_eq hs, r.getSegmentSize_eq hs]
  by_cases hj : InSegment sizes t.segment j
  · have hstarts := hj.1
    have hends := hj.2
    rw [if_pos ⟨hstarts, hends⟩, if_pos hj, getSegment, BitMap.bit_copyTo, if_pos (by omega), hstart,
      Nat.add_sub_cancel_left, Nat.add_sub_cancel' hstarts]
  · rw [if_neg fun h => hj ⟨h.1, h.2⟩, if_neg hj]

theorem isFilled_receive (s : Nat) :
    (f.receive r t).filter.isFilled s = (decide (s = t.segment) || r.filter.isFilled s) :=
  BitMap.get_set r.filter.filled t.segment s

theorem holds_new (f : Segmented P K sizes) (N : Nat) : Holds f (.new N K sizes true) [] where
  bits s j hj := by
    rw [if_neg List.not_mem_nil]
    exact BitMap.get_setAll_true (hj.lt_sum s.isLt)
  filled s := by
    refine iff_of_false ?_ List.not_mem_nil
    change ¬ (BitMap.new sizes.length).get s = true
    rw [BitMap.get_new]
    exact Bool.false_ne_true

theorem Holds.receive {done : List (Fin sizes.length)} (h : Holds f r done) :
    Holds f (f.receive r t) (t.segment :: done) where
  bits s j hj := by
    rw [get_receive]
    by_cases hs : s = t.segment
    · rw [if_pos (hs ▸ hj), if_pos (List.mem_cons.mpr (Or.inl hs))]
    · have hother : ¬ InSegment sizes t.segment j := fun hin => hs (Fin.ext (hj.unique hin))
      have hmem : s ∈ t.segment :: done ↔ s ∈ done := List.mem_cons.trans (or_iff_right hs)
      rw [if_neg hother, h.bits s j hj]
      exact if_congr hmem.symm rfl rfl
  filled s := by
    rw [isFilled_receive, Bool.or_eq_true, h.filled, decide_eq_true_iff, List.mem_cons, Fin.ext_iff]

theorem Holds.foldl {done : List (Fin sizes.length)} (h : Holds f r done) (transfers : List (Transfer sizes)) :
    Holds f (transfers.foldl f.receive r) ((transfers.map Transfer.segment).reverse ++ done) := by
  induction transfers generalizing r done with
  | nil => exact h
  | cons t transfers ih =>
      rw [List.foldl_cons, List.map_cons, List.reverse_cons, List.append_assoc]
      exact ih (h.receive t)

end Segmented

end Sddr.Codec.SegmentedBloomFilter
