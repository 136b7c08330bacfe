import Sddr.Erasure.Lemmas.Shift

/-! # Main results about the erasure code -/

namespace Sddr.Erasure
open Sddr.Lib

namespace RSErasureDecoder

/-- Any `K` different symbols of a block, in any order and however often, decode to the block, and it stays that way
whatever is called later. -/
theorem decode_any {g : Galois} {K M W : Nat} (hK : 2 ≤ K) (hM : 1 ≤ M) (h : Codable g K M W) (data : Mem) :
    ∃ matrix, RSMatrix.new g K M W = some matrix ∧
      let e := (RSErasureEncoder.new matrix).encode g data
      ∀ calls, (∀ i ∈ indices calls, i < K + M) → K ≤ (indices calls).toFinset.card →
        ∀ later, (∀ i ∈ indices later, i < K + M) →
          ((later.foldl (call g e) (calls.foldl (call g e) (new matrix))).decode g).1 = some (data.take (K * W)) := by
  have hpos : 0 < K := by omega
  obtain ⟨parts, hnew, rfl, hsound⟩ := RSMatrix.new_sound hM h
  obtain ⟨hqs, hsymbol⟩ := encode_codeOf hpos hsound
    (e := RSErasureEncoder.new ⟨K, M, (parts.map Part.w).sum, parts⟩) rfl (map_part_new parts) data
  refine ⟨_, hnew, fun calls hcalls hcard later hlater => ?_⟩
  have hcalled := (DecoderInv.new _ hqs.parts).calls hM hqs hsymbol calls hcalls
    fun i hi => absurd hi (Finset.notMem_empty i)
  rw [Finset.empty_union] at hcalled
  have hS : ∀ i ∈ (indices calls).toFinset, i < K + M := fun i hi => hcalls i (List.mem_toFinset.mp hi)
  have hdone := hcalled.calls hM hqs hsymbol later hlater hS
  refine (hdone.decode hM hqs fun i hi => ?_).2 (hcard.trans (Finset.card_le_card Finset.subset_union_left))
  rcases Finset.mem_union.mp hi with hi | hi
  · exact hS i hi
  · exact hlater i (List.mem_toFinset.mp hi)

theorem decode_any_shift :
    ∃ matrix, RSMatrix.new galoisShift 2 1 1 = some matrix ∧
      let e := (RSErasureEncoder.new matrix).encode galoisShift (Mem.ofList [0x53, 0xCA])
      ∀ calls, (∀ i ∈ indices calls, i < 2 + 1) → 2 ≤ (indices calls).toFinset.card →
        ∀ later, (∀ i ∈ indices later, i < 2 + 1) →
          ((later.foldl (call galoisShift e) (calls.foldl (call galoisShift e) (new matrix))).decode galoisShift).1
            = some ((Mem.ofList [0x53, 0xCA]).take (2 * 1)) :=
  decode_any (by decide) (by decide) (codable_galoisShift (by decide) (by decide) (by decide) 1)
    (Mem.ofList [0x53, 0xCA])

end RSErasureDecoder

end Sddr.Erasure
