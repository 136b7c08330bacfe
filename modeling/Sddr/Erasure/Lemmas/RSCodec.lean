import Mathlib.Data.Finset.Card
import Mathlib.Data.List.GetD
import Sddr.Erasure.Lemmas.RSErasure

/-!
# Encoder and decoder

The encoder's parts hold the data block and its coding symbols. The decoder agrees with them on every symbol it has
received, until it decodes; from then on it holds the block.
-/

namespace Sddr.Erasure
open Sddr.Lib Sddr.Codec

variable {g : Galois} {K M W : Nat}

/-! ## RSMatrix -/

theorem mem_partWidths {w : Nat} (h : w ∈ partWidths W) : w = 4 ∨ w = 2 ∨ w = 1 := by
  simp only [partWidths, partWidthsOf, List.mem_append, List.mem_replicate] at h
  omega

theorem sum_partWidths (W : Nat) : (partWidths W).sum = W := by
  simp only [partWidths, partWidthsOf, List.sum_append, List.sum_replicate, smul_eq_mul]
  omega

/-- Symbols of this width can be coded: field arithmetic, and an MDS coding matrix for each part. -/
def Codable (g : Galois) (K M W : Nat) : Prop :=
  ∀ w ∈ partWidths W, g.IsField (8 * w) ∧
    ∃ matrix, vandermondeCodingMatrix g (8 * w) K M = some matrix ∧ MDS g K M matrix

theorem RSMatrix.new_sound (hM : 0 < M) (h : Codable g K M W) :
    ∃ parts, RSMatrix.new g K M W = some ⟨K, M, W, parts⟩ ∧ (parts.map Part.w).sum = W ∧
      ∀ p ∈ parts, p.Sound g K M := by
  have hparts : ∀ ws : List Nat, (∀ w ∈ ws, w ∈ partWidths W) → ∃ parts : List Part,
      (ws.mapM fun w => (vandermondeCodingMatrix g (8 * w) K M).map fun matrix => (⟨w, matrix⟩ : Part)) = some parts ∧
        parts.map Part.w = ws ∧ ∀ p ∈ parts, p.Sound g K M := by
    intro ws
    induction ws with
    | nil => exact fun _ => ⟨[], rfl, rfl, fun p hp => by cases hp⟩
    | cons w ws ih =>
        intro hws
        obtain ⟨hfield, matrix, hmatrix, hmds⟩ := h w (hws w List.mem_cons_self)
        have hmem := mem_partWidths (hws w List.mem_cons_self)
        obtain ⟨hpos, hle⟩ : 0 < w ∧ w ≤ 4 := by omega
        obtain ⟨parts, hrun, hwidths, hsound⟩ := ih fun w' hw' => hws w' (List.mem_cons_of_mem _ hw')
        refine ⟨⟨w, matrix⟩ :: parts, ?_, by rw [List.map_cons, hwidths], fun p hp => ?_⟩
        · rw [List.mapM_cons, hmatrix, hrun]
          rfl
        · rcases List.mem_cons.mp hp with rfl | hp
          · have : Fact (g.IsField (8 * w)) := ⟨hfield⟩
            have : NeZero (8 * w) := ⟨by omega⟩
            exact ⟨hpos, hle, hfield, hmds, vandermondeCodingMatrix_ones hM hmatrix hmds⟩
          · exact hsound p hp
  obtain ⟨parts, hrun, hwidths, hsound⟩ := hparts (partWidths W) fun _ hw => hw
  refine ⟨parts, ?_, by rw [hwidths, sum_partWidths], hsound⟩
  rw [RSMatrix.new, hrun]
  rfl

/-! ## Blocks of symbols -/

theorem flatMap_take (data : Mem) (W n : Nat) :
    ((List.range n).flatMap fun k => (data.add (k * W)).take W) = data.take (n * W) := by
  induction n with
  | zero => rw [Nat.zero_mul]; rfl
  | succ n ih => rw [List.range_succ, List.flatMap_append, ih, Nat.succ_mul, Mem.take_add, List.flatMap_singleton]

theorem length_flatMap_range {f : Nat → List Byte} (hf : ∀ i, (f i).length = W) (n : Nat) :
    ((List.range n).flatMap f).length = n * W := by
  induction n with
  | zero => rw [Nat.zero_mul]; rfl
  | succ n ih => rw [List.range_succ, List.flatMap_append, List.length_append, ih, List.flatMap_singleton, hf,
      Nat.succ_mul]

/-- Symbol `i` of the memory that holds all symbols. -/
theorem take_flatMap {f : Nat → List Byte} (hf : ∀ i, (f i).length = W) {n i : Nat} (hi : i < n) :
    ((Mem.ofList ((List.range n).flatMap f)).add (i * W)).take W = f i := by
  induction n with
  | zero => exact absurd hi (Nat.not_lt_zero i)
  | succ n ih =>
      have hlength := length_flatMap_range hf n
      rw [List.range_succ, List.flatMap_append, List.flatMap_singleton]
      rcases Nat.lt_succ_iff_lt_or_eq.mp hi with hlt | rfl
      · rw [← ih hlt]
        refine Mem.take_congr fun b hb => ?_
        have hle : (i + 1) * W ≤ n * W := Nat.mul_le_mul_right W hlt
        rw [Nat.succ_mul] at hle
        rw [Mem.add, Mem.add, Mem.ofList, Mem.ofList, List.getD_append _ _ _ _ (by omega)]
      · have hblock := Mem.take_ofList (f i)
        rw [hf] at hblock
        refine (Mem.take_congr fun b hb => ?_).trans hblock
        rw [Mem.add, Mem.ofList, Mem.ofList, List.getD_append_right _ _ _ _ (by omega), hlength, Nat.add_sub_cancel_left]

/-! ## RSErasureEncoder -/

theorem loadData_spec {ps : List PartSymbols} (hw : ∀ p ∈ ps.map PartSymbols.part, p.w ≤ 4) (data : Mem) (n : Nat) :
    (RSErasureEncoder.loadData ps data n).map PartSymbols.part = ps.map PartSymbols.part ∧
      ∀ k < n, storeSymbol (RSErasureEncoder.loadData ps data n) k
        = (data.add (k * symbolWidth ps)).take (symbolWidth ps) := by
  induction n with
  | zero => exact ⟨rfl, fun k hk => absurd hk (Nat.not_lt_zero k)⟩
  | succ n ih =>
      obtain ⟨hparts, hstore⟩ := ih
      have hwidth := symbolWidth_congr hparts
      have hle : ∀ p ∈ RSErasureEncoder.loadData ps data n, p.part.w ≤ 4 := by
        intro p hp
        refine hw p.part ?_
        rw [← hparts]
        exact List.mem_map_of_mem hp
      have hsucc : RSErasureEncoder.loadData ps data (n + 1) = loadSymbol n (RSErasureEncoder.loadData ps data n)
          (data.add (n * symbolWidth (RSErasureEncoder.loadData ps data n))) := by
        rw [RSErasureEncoder.loadData, List.range_succ, List.foldl_append]
        rfl
      rw [hsucc]
      refine ⟨by rw [map_part_loadSymbol, hparts], fun k hk => ?_⟩
      rcases Nat.lt_succ_iff_lt_or_eq.mp hk with hlt | rfl
      · rw [storeSymbol_loadSymbol_other (by omega), hstore k hlt]
      · rw [storeSymbol_loadSymbol _ _ _ hle, hwidth]

variable {parts : List Part}

/-- `qs` are parts filled from the data `block`. -/
structure CodeOf (g : Galois) (K M : Nat) (parts : List Part) (block : List Byte) (qs : List PartSymbols) : Prop where
  parts : qs.map PartSymbols.part = parts
  encoded : ∀ q ∈ qs, q.IsEncoded g K M
  data : (List.range K).flatMap (storeSymbol qs) = block

theorem CodeOf.symbolWidth {block : List Byte} {qs : List PartSymbols} (h : CodeOf g K M parts block qs) :
    symbolWidth qs = (parts.map Part.w).sum := by
  rw [symbolWidth_eq, h.parts]

/-- Whatever the encoder held before, `encode` fills its parts from the data, and its symbols are theirs. -/
theorem encode_codeOf (hK : 0 < K) (hsound : ∀ p ∈ parts, p.Sound g K M) {e : RSErasureEncoder}
    (hmatrix : e.matrix = ⟨K, M, (parts.map Part.w).sum, parts⟩) (hparts : e.partSymbols.map PartSymbols.part = parts)
    (data : Mem) :
    CodeOf g K M parts (data.take (K * (parts.map Part.w).sum)) (e.encode g data).partSymbols ∧
      ∀ i < K + M, ((e.encode g data).getSymbol i).take (parts.map Part.w).sum
        = storeSymbol (e.encode g data).partSymbols i := by
  obtain ⟨hloaded, hload⟩ := loadData_spec (fun p hp => (hsound p (hparts ▸ hp)).le) data K
  rw [hparts] at hloaded
  have hencode : (e.encode g data).partSymbols = (RSErasureEncoder.loadData e.partSymbols data K).map fun p =>
      { p with drives := matrixEncode g K M p.part.matrix p.drives } := by
    rw [RSErasureEncoder.encode, hmatrix]
  have hmap : (e.encode g data).partSymbols.map PartSymbols.part = parts := by
    rw [hencode, List.map_map]
    exact hloaded
  have hsame : List.Forall₂ (SameAt (· < K)) (e.encode g data).partSymbols
      (RSErasureEncoder.loadData e.partSymbols data K) := by
    rw [hencode, List.forall₂_map_left_iff, List.forall₂_same]
    intro p hp
    have hpart := hsound p.part (hloaded ▸ List.mem_map_of_mem hp)
    have : Fact (g.IsField (8 * p.part.w)) := ⟨hpart.field⟩
    have : NeZero (8 * p.part.w) := hpart.neZero
    exact .mk p.part fun d hd => congrFun ((matrixEncode_foldl hK hpart.mds p.drives (Nat.le_refl M)).1 d hd) 0
  have hwidth : symbolWidth e.partSymbols = (parts.map Part.w).sum := by rw [symbolWidth_eq, hparts]
  refine ⟨⟨hmap, fun q hq => ?_, ?_⟩, fun i hi => ?_⟩
  · have hpart := hsound q.part (hmap ▸ List.mem_map_of_mem hq)
    have : Fact (g.IsField (8 * q.part.w)) := ⟨hpart.field⟩
    have : NeZero (8 * q.part.w) := hpart.neZero
    rw [hencode] at hq
    obtain ⟨p, _, rfl⟩ := List.mem_map.mp hq
    exact ⟨hpart, matrixEncode_encoded hK hpart.mds _ 0⟩
  · rw [← flatMap_take, ← hwidth]
    refine List.flatMap_congr fun k hk => ?_
    rw [storeSymbol_same hsame (List.mem_range.mp hk), hload k (List.mem_range.mp hk)]
  · have hlength : ∀ i, (storeSymbol (e.encode g data).partSymbols i).length = (parts.map Part.w).sum := by
      intro i
      rw [length_storeSymbol, symbolWidth_eq, hmap]
    have hsymbols : (e.encode g data).symbols = (List.range (K + M)).flatMap (storeSymbol (e.encode g data).partSymbols) := by
      rw [RSErasureEncoder.encode, hmatrix]
    have hgoal := take_flatMap hlength hi
    rw [← hsymbols] at hgoal
    have hW : (e.encode g data).matrix.W = (parts.map Part.w).sum := by
      rw [RSErasureEncoder.encode, hmatrix]
    rw [RSErasureEncoder.getSymbol, hW]
    exact hgoal

theorem map_part_new (parts : List Part) : (parts.map PartSymbols.new).map PartSymbols.part = parts := by
  rw [List.map_map]
  exact List.map_id parts

/-! ## RSErasureDecoder -/

/-- `S` are the symbols received so far, `qs` the parts of the encoder and `block` its data. -/
structure DecoderInv (K M : Nat) (parts : List Part) (qs : List PartSymbols) (block : List Byte) (S : Finset Nat)
    (d : RSErasureDecoder) : Prop where
  matrix : d.matrix = ⟨K, M, (parts.map Part.w).sum, parts⟩
  received : ∀ i, d.received.get i = decide (i ∈ S)
  numReceived : d.numReceived = S.card
  partSymbols : d.isDecoded = false → List.Forall₂ (SameAt (· ∈ S)) d.partSymbols qs
  data : d.isDecoded = true → d.data = block

variable {qs : List PartSymbols} {block : List Byte} {S : Finset Nat} {d : RSErasureDecoder}

theorem DecoderInv.new (block : List Byte) (hqs : qs.map PartSymbols.part = parts) :
    DecoderInv K M parts qs block ∅ (RSErasureDecoder.new ⟨K, M, (parts.map Part.w).sum, parts⟩) where
  matrix := rfl
  received i := by simp [RSErasureDecoder.new]
  numReceived := rfl
  partSymbols _ := by
    subst hqs
    have hsame : List.Forall₂ (SameAt (· ∈ (∅ : Finset Nat))) ((qs.map PartSymbols.part).map PartSymbols.new) qs := by
      rw [List.map_map, List.forall₂_map_left_iff, List.forall₂_same]
      exact fun q _ => .mk q.part fun d hd => by cases hd
    exact hsame
  data h := by cases h

theorem DecoderInv.setSymbol (h : DecoderInv K M parts qs block S d) (hw : ∀ q ∈ qs, q.part.w ≤ 4) {index : Nat}
    {data : Mem} (hdata : data.take (symbolWidth qs) = storeSymbol qs index) :
    DecoderInv K M parts qs block (insert index S) (d.setSymbol index data).2 := by
  have hget : ∀ i, (d.received.set index).get i = decide (i ∈ insert index S) := by
    intro i
    rw [BitMap.get_set, h.received i, ← Bool.decide_or]
    exact decide_eq_decide.mpr Finset.mem_insert.symm
  have hindex := h.received index
  by_cases hmem : index ∈ S
  · rw [decide_eq_true hmem] at hindex
    have hrun : (d.setSymbol index data).2 = { d with received := d.received.set index } := by
      simp [RSErasureDecoder.setSymbol, BitMap.getThenSet, hindex]
    rw [hrun]
    rw [Finset.insert_eq_of_mem hmem] at hget ⊢
    exact ⟨h.matrix, hget, h.numReceived, h.partSymbols, h.data⟩
  · rw [decide_eq_false hmem] at hindex
    have hrun : (d.setSymbol index data).2 =
        { d with
          received := d.received.set index
          partSymbols := loadSymbol index d.partSymbols data
          numReceived := d.numReceived + 1 } := by
      simp [RSErasureDecoder.setSymbol, BitMap.getThenSet, hindex]
    rw [hrun]
    refine ⟨h.matrix, hget, ?_, fun hdec => ?_, h.data⟩
    · rw [Finset.card_insert_of_notMem hmem, ← h.numReceived]
    · have hload := loadSymbol_same (h.partSymbols hdec) hw hdata
      simpa only [Finset.mem_insert] using hload

/-- `decode` keeps the invariant, and with `K` symbols it returns the block. -/
theorem DecoderInv.decode (h : DecoderInv K M parts qs block S d) (hM : 0 < M) (hqs : CodeOf g K M parts block qs)
    (hS : ∀ i ∈ S, i < K + M) :
    DecoderInv K M parts qs block S (d.decode g).2 ∧ (K ≤ S.card → (d.decode g).1 = some block) := by
  unfold RSErasureDecoder.decode
  cases hdec : d.isDecoded with
  | true =>
      rw [if_pos rfl]
      exact ⟨h, fun _ => congrArg some (h.data hdec)⟩
  | false =>
      simp only [Bool.false_eq_true, if_false, RSErasureDecoder.canDecode, h.matrix, h.numReceived, decide_eq_true_eq]
      by_cases hcard : S.card ≥ K
      · rw [if_pos hcard]
        have hcount : K ≤ ((List.range (K + M)).filter d.received.get).length := by
          have hfilter : ((List.range (K + M)).filter d.received.get).toFinset = S := by
            ext i
            rw [List.mem_toFinset, List.mem_filter, List.mem_range, h.received, decide_eq_true_iff]
            exact ⟨And.right, fun hi => ⟨hS i hi, hi⟩⟩
          rw [← List.toFinset_card_of_nodup (List.nodup_range.filter _), hfilter]
          exact hcard
        have hsame : List.Forall₂ (SameAt fun i => d.received.get i = true) d.partSymbols qs := by
          simpa only [h.received, decide_eq_true_iff] using h.partSymbols hdec
        have hdecoded := matrixDecode_same hM hcount hqs.encoded hsame
        have hdata := List.flatMap_congr fun k hk => storeSymbol_same hdecoded (List.mem_range.mp hk)
        rw [hqs.data] at hdata
        exact ⟨⟨rfl, h.received, rfl, (fun hfalse => by cases hfalse), fun _ => hdata⟩,
          fun _ => congrArg some hdata⟩
      · rw [if_neg hcard]
        exact ⟨h, fun hge => absurd hge hcard⟩

/-- Calls with symbols of the block keep the invariant. -/
theorem DecoderInv.calls (hM : 0 < M) (hqs : CodeOf g K M parts block qs) {e : RSErasureEncoder}
    (he : ∀ i < K + M, (e.getSymbol i).take (parts.map Part.w).sum = storeSymbol qs i)
    (calls : List RSErasureDecoder.Call) (hcalls : ∀ i ∈ RSErasureDecoder.indices calls, i < K + M)
    (hS : ∀ i ∈ S, i < K + M) (h : DecoderInv K M parts qs block S d) :
    DecoderInv K M parts qs block (S ∪ (RSErasureDecoder.indices calls).toFinset)
      (calls.foldl (RSErasureDecoder.call g e) d) := by
  induction calls generalizing S d with
  | nil => simpa [RSErasureDecoder.indices] using h
  | cons c calls ih =>
      cases c with
      | setSymbol index =>
          have hindex : index < K + M := hcalls index List.mem_cons_self
          have hstep := h.setSymbol (fun q hq => (hqs.encoded q hq).1.le)
            (by rw [hqs.symbolWidth]; exact he index hindex)
          have hrun := ih (fun i hi => hcalls i (List.mem_cons_of_mem _ hi))
            (fun i hi => (Finset.mem_insert.mp hi).elim (fun heq => heq ▸ hindex) (hS i)) hstep
          have hset : S ∪ (RSErasureDecoder.indices (.setSymbol index :: calls)).toFinset
              = insert index S ∪ (RSErasureDecoder.indices calls).toFinset := by
            simp [RSErasureDecoder.indices, Finset.union_insert, Finset.insert_union]
          rw [hset]
          exact hrun
      | decode => exact ih hcalls hS (h.decode hM hqs hS).1

end Sddr.Erasure
