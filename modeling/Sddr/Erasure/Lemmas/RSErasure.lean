import Sddr.Codec.Lemmas.BitMap
import Sddr.Erasure.Lemmas.Decode
import Sddr.Erasure.Lemmas.ReedSol
import Sddr.Erasure.RSErasure

/-!
# The parts of a symbol

Only word 0 of each region carries bytes of the symbol; the bits a `long` has above them come from sign extension
and from earlier contents, and nothing reads them.
-/

namespace Sddr.Erasure
open Sddr.Lib Sddr.Codec

variable {g : Galois}

/-! ## One part -/

theorem getLsbD_loadLong (data : Mem) {n : Nat} (hn : n ≤ 4) {j : Nat} (hj : j < 32) :
    (loadLong data n).getLsbD j = (decide (j < 8 * n) && data.bit j) := by
  induction n with
  | zero => simp [loadLong]
  | succ n ih =>
      have hbyte : ((((data n).zeroExtend 32) <<< (8 * n)).signExtend 64).getLsbD j
          = (decide (8 * n ≤ j) && (data n).getLsbD (j - 8 * n)) := by
        rw [BitVec.getLsbD_signExtend]
        have h64 : j < 64 := by omega
        by_cases hle : 8 * n ≤ j
        · simp [hj, h64, hle, Nat.not_lt.mpr hle]
        · simp [hj, h64, hle, Nat.lt_of_not_le hle]
      rw [loadLong, List.range_succ, List.foldl_append, ← loadLong, List.foldl_cons, List.foldl_nil,
        BitVec.getLsbD_or, ih (by omega), hbyte]
      rcases Nat.lt_trichotomy (j / 8) n with hlt | heq | hgt
      · have h1 : j < 8 * n := by omega
        have h2 : j < 8 * (n + 1) := by omega
        simp [h1, h2, Nat.not_le.mpr h1]
      · have h1 : ¬ j < 8 * n := by omega
        have h2 : j < 8 * (n + 1) := by omega
        have h3 : j - 8 * n = j % 8 := by omega
        simp [h1, h2, Nat.not_lt.mp h1, h3, Mem.bit, heq]
      · have h1 : ¬ j < 8 * n := by omega
        have h2 : ¬ j < 8 * (n + 1) := by omega
        have h3 : 8 ≤ j - 8 * n := by omega
        simp [h1, h2, BitVec.getLsbD_of_ge _ _ h3]

theorem Region.byte_eq {w b : Nat} (r : Region (8 * w)) (hb : b < w) : r.byte b = (r 0).extractLsb' (8 * b) 8 := by
  rw [Region.byte, Nat.div_eq_of_lt hb, Nat.mod_eq_of_lt hb]

/-- The bytes of a part are read back as they were written. -/
theorem byte_regionOfLong (data : Mem) {w b : Nat} (hw : w ≤ 4) (hb : b < w) :
    Region.byte (regionOfLong (8 * w) (loadLong data w)) b = data b := by
  apply BitVec.eq_of_getLsbD_eq
  intro k hk
  have hlt : 8 * b + k < 8 * w := by omega
  rw [Region.byte_eq _ hb, regionOfLong, BitVec.getLsbD_extractLsb', BitVec.getLsbD_extractLsb', Nat.mul_zero,
    Nat.zero_add, getLsbD_loadLong data hw (by omega), Mem.bit_mul_add data b hk]
  simp [hk, hlt]

/-- Word 0 is what its bytes are. -/
theorem word_ext {w : Nat} {r r' : Region (8 * w)} (h : ∀ b < w, r.byte b = r'.byte b) : r 0 = r' 0 := by
  apply BitVec.eq_of_getLsbD_eq
  intro j hj
  have hb : j / 8 < w := by omega
  have hbyte := congrArg (fun x : Byte => x.getLsbD (j % 8)) (h _ hb)
  have hj8 : 8 * (j / 8) + j % 8 = j := by omega
  have hlt : j % 8 < 8 := by omega
  simpa only [Region.byte_eq _ hb, BitVec.getLsbD_extractLsb', hlt, decide_true, Bool.true_and, hj8] using hbyte

/-! ## Symbols -/

theorem storeSymbol_cons (p : PartSymbols) (ps : List PartSymbols) (index : Nat) :
    storeSymbol (p :: ps) index = (List.range p.part.w).map (Region.byte (p.drives index)) ++ storeSymbol ps index :=
  rfl

theorem length_storeSymbol (ps : List PartSymbols) (index : Nat) :
    (storeSymbol ps index).length = symbolWidth ps := by
  induction ps with
  | nil => rfl
  | cons p ps ih => rw [storeSymbol_cons, List.length_append, ih, List.length_map, List.length_range, symbolWidth]

theorem map_part_loadSymbol (index : Nat) (ps : List PartSymbols) (data : Mem) :
    (loadSymbol index ps data).map PartSymbols.part = ps.map PartSymbols.part := by
  induction ps generalizing data with
  | nil => rfl
  | cons p ps ih => rw [loadSymbol, List.map_cons, List.map_cons, ih]

theorem symbolWidth_eq (ps : List PartSymbols) : symbolWidth ps = ((ps.map PartSymbols.part).map Part.w).sum := by
  induction ps with
  | nil => rfl
  | cons p ps ih => rw [symbolWidth, ih, List.map_cons, List.map_cons, List.sum_cons]

theorem symbolWidth_congr {ps ps' : List PartSymbols} (h : ps.map PartSymbols.part = ps'.map PartSymbols.part) :
    symbolWidth ps = symbolWidth ps' := by
  rw [symbolWidth_eq, symbolWidth_eq, h]

theorem storeSymbol_loadSymbol (index : Nat) (ps : List PartSymbols) (data : Mem) (hw : ∀ p ∈ ps, p.part.w ≤ 4) :
    storeSymbol (loadSymbol index ps data) index = data.take (symbolWidth ps) := by
  induction ps generalizing data with
  | nil => rfl
  | cons p ps ih =>
      have hp := hw p List.mem_cons_self
      rw [loadSymbol, storeSymbol_cons, ih _ fun p' hp' => hw p' (List.mem_cons_of_mem _ hp'), symbolWidth, Mem.take_add]
      congr 1
      refine List.map_congr_left fun b hb => ?_
      simp only [Function.update_self]
      exact byte_regionOfLong data hp (List.mem_range.mp hb)

theorem storeSymbol_loadSymbol_other {index index' : Nat} (h : index' ≠ index) (ps : List PartSymbols) (data : Mem) :
    storeSymbol (loadSymbol index ps data) index' = storeSymbol ps index' := by
  induction ps generalizing data with
  | nil => rfl
  | cons p ps ih =>
      rw [loadSymbol, storeSymbol_cons, storeSymbol_cons, ih]
      simp only [Function.update_of_ne h]

/-! ## Two codecs that agree -/

/-- The same part, with the same words on the devices in `S`. -/
inductive SameAt (S : Nat → Prop) : PartSymbols → PartSymbols → Prop where
  | mk (part : Part) {drives drives' : Drives (8 * part.w)} (h : ∀ d, S d → drives d 0 = drives' d 0) :
      SameAt S ⟨part, drives⟩ ⟨part, drives'⟩

variable {S : Nat → Prop} {ps qs : List PartSymbols}

theorem storeSymbol_same (h : List.Forall₂ (SameAt S) ps qs) {d : Nat} (hd : S d) :
    storeSymbol ps d = storeSymbol qs d := by
  induction h with
  | nil => rfl
  | cons hp _ ih =>
      obtain ⟨part, hsame⟩ := hp
      rw [storeSymbol_cons, storeSymbol_cons, ih]
      congr 1
      refine List.map_congr_left fun b hb => ?_
      have hbyte : ∀ r r' : Region (8 * part.w), r 0 = r' 0 → r.byte b = r'.byte b := by
        intro r r' heq
        rw [Region.byte_eq r (List.mem_range.mp hb), Region.byte_eq r' (List.mem_range.mp hb), heq]
      exact hbyte _ _ (hsame d hd)

/-- Loading the bytes of a symbol of `qs` makes the two agree there too. -/
theorem loadSymbol_same (h : List.Forall₂ (SameAt S) ps qs) (hw : ∀ q ∈ qs, q.part.w ≤ 4) {index : Nat} {data : Mem}
    (hdata : data.take (symbolWidth qs) = storeSymbol qs index) :
    List.Forall₂ (SameAt fun d => d = index ∨ S d) (loadSymbol index ps data) qs := by
  induction h generalizing data with
  | nil => exact .nil
  | cons hp _ ih =>
      obtain ⟨part, hsame⟩ := hp
      have hpart := hw _ List.mem_cons_self
      rw [symbolWidth, Mem.take_add, storeSymbol_cons] at hdata
      obtain ⟨hbytes, hrest⟩ := List.append_inj hdata (by simp)
      refine .cons (.mk part fun d hd => ?_) (ih (fun q hq => hw q (List.mem_cons_of_mem _ hq)) hrest)
      by_cases hdi : d = index
      · subst hdi
        rw [Function.update_self]
        refine word_ext fun b hb => ?_
        rw [byte_regionOfLong data hpart hb]
        exact List.map_inj_left.mp hbytes b (List.mem_range.mpr hb)
      · rw [Function.update_of_ne hdi]
        exact hsame d (hd.resolve_left hdi)

/-! ## Coding one part -/

/-- A part as `RSMatrix` builds it, with the arithmetic and the coding matrix taken to be right. -/
structure Part.Sound (g : Galois) (K M : Nat) (p : Part) : Prop where
  pos : 0 < p.w
  le : p.w ≤ 4
  field : g.IsField (8 * p.w)
  mds : MDS g K M p.matrix
  ones : ∀ c < K, p.matrix 0 c = 1

theorem Part.Sound.neZero {K M : Nat} {p : Part} (h : p.Sound g K M) : NeZero (8 * p.w) :=
  ⟨Nat.mul_ne_zero (by decide) (Nat.pos_iff_ne_zero.mp h.pos)⟩

/-- What the first `n` rounds of `jerasure_matrix_encode` leave in the devices. -/
theorem matrixEncode_foldl {w k m : Nat} [Fact (g.IsField w)] [NeZero w] {matrix : IntMatrix w} (hk : 0 < k)
    (hmds : MDS g k m matrix) (drives : Drives w) {n : Nat} (hn : n ≤ m) :
    let acc := (List.range n).foldl (fun acc i => matrixDotprod g k (matrix i) id (k + i) acc) drives
    (∀ d < k, acc d = drives d) ∧ ∀ i < n, ∀ j, acc (k + i) j = g.dot k (matrix i) fun c => drives c j := by
  induction n with
  | zero => exact ⟨fun d _ => rfl, fun i hi => absurd hi (Nat.not_lt_zero i)⟩
  | succ n ih =>
      obtain ⟨hdata, hcoding⟩ := ih (by omega)
      simp only [List.range_succ, List.foldl_append, List.foldl_cons, List.foldl_nil]
      refine ⟨fun d hd => ?_, fun i hi j => ?_⟩
      · rw [matrixDotprod_other (by omega), hdata d hd]
      · rcases Nat.lt_succ_iff_lt_or_eq.mp hi with hlt | rfl
        · rw [matrixDotprod_other (by omega), hcoding i hlt j]
        · rw [matrixDotprod_spec GF.isField GF.one_ne_zero_word (fun c hc _ => by simp only [id]; omega)
            ⟨0, hk, hmds.entry_ne_zero hn hk⟩, Galois.dot, Galois.dot]
          exact xorSum_congr fun c hc => by rw [id, hdata c hc]

theorem matrixEncode_encoded {w k m : Nat} [Fact (g.IsField w)] [NeZero w] {matrix : IntMatrix w} (hk : 0 < k)
    (hmds : MDS g k m matrix) (drives : Drives w) (j : Nat) :
    Encoded g k m matrix fun d => matrixEncode g k m matrix drives d j := by
  obtain ⟨hdata, hcoding⟩ := matrixEncode_foldl hk hmds drives (Nat.le_refl m)
  intro i hi
  refine (hcoding i hi j).trans ?_
  rw [Galois.dot, Galois.dot]
  exact xorSum_congr fun c hc => by rw [matrixEncode, hdata c hc]

/-- A part with its devices filled by `encode`. -/
def PartSymbols.IsEncoded (g : Galois) (K M : Nat) (q : PartSymbols) : Prop :=
  q.part.Sound g K M ∧ Encoded g K M q.part.matrix fun d => q.drives d 0

variable {K M : Nat} {received : Nat → Bool}

/-- Decoding a part from `K` devices on which it agrees with the encoder gives it the data. -/
theorem matrixDecode_same (hM : 0 < M)
    (hleft : K ≤ ((List.range (K + M)).filter received).length)
    (hsound : ∀ q ∈ qs, q.IsEncoded g K M) (h : List.Forall₂ (SameAt fun d => received d = true) ps qs) :
    let erasures := (List.range (K + M)).filter fun s => !received s
    List.Forall₂ (SameAt (· < K)) (ps.map fun p =>
      { p with drives := (matrixDecode g K M p.part.matrix true erasures p.drives).getD p.drives }) qs := by
  intro erasures
  have hthere : ∀ d < K + M, (d ∉ erasures ↔ received d = true) := by
    intro d hd
    simp [erasures, hd]
  induction h with
  | nil => exact .nil
  | cons hp _ ih =>
      obtain ⟨part, hsame⟩ := hp
      obtain ⟨hpart, hencoded⟩ := hsound _ List.mem_cons_self
      have : Fact (g.IsField (8 * part.w)) := ⟨hpart.field⟩
      have : NeZero (8 * part.w) := hpart.neZero
      refine .cons ?_ (ih fun q hq => hsound q (List.mem_cons_of_mem _ hq))
      have hcount : K ≤ ((List.range (K + M)).filter fun i => i ∉ erasures).length := by
        refine hleft.trans_eq (congrArg List.length (List.filter_congr fun d hd => ?_))
        rw [Bool.eq_iff_iff, decide_eq_true_iff, hthere d (List.mem_range.mp hd)]
      obtain ⟨drives', hdecode, hvalues⟩ := matrixDecode_spec hM hpart.mds hpart.ones hcount
      refine .mk part fun d hd => ?_
      rw [hdecode, Option.getD_some]
      exact hvalues _ 0 hencoded (fun d hd hd' => hsame d ((hthere d hd).mp hd')) d hd

end Sddr.Erasure
