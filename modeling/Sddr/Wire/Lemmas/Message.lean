import Sddr.Wire.Message
import Mathlib.Data.List.Nodup

/-!
# Parsing by jumps and by the `switch`
-/

namespace Sddr.Wire
open Sddr.Lib

/-! ## What is left -/

theorem length_readTag {buffer : List Byte} (h : (readTag buffer).1 ≠ 0) : (readTag buffer).2.length < buffer.length := by
  rw [readTag_eq] at h ⊢
  cases hread : readWord 32 buffer with
  | none => simp [hread] at h
  | some p => exact length_readWord hread

theorem length_readLittleEndian {w : Nat} {value : BitVec w} {buffer rest : List Byte}
    (h : readLittleEndian w buffer = some (value, rest)) : rest.length ≤ buffer.length := by
  rw [readLittleEndian] at h
  split_ifs at h
  cases h
  simp

variable {unknownFields unknownFields' : List UnknownField} {buffer rest : List Byte}

theorem length_skipMessage {skip : BitVec 32 → List UnknownField → List Byte → Skipped}
    (hskip : ∀ {tag unknownFields buffer unknownFields' rest}, skip tag unknownFields buffer = .ok (unknownFields', rest) →
      rest.length ≤ buffer.length) {n : Nat} {lastTag : BitVec 32}
    (h : skipMessage skip n unknownFields buffer = .ok (lastTag, unknownFields', rest)) : rest.length ≤ buffer.length := by
  induction n generalizing unknownFields buffer with
  | zero => cases h
  | succ n ih =>
      simp only [skipMessage] at h
      split_ifs at h with hzero hend
      · cases h
        rw [readTag_eq]
        cases hread : readWord 32 buffer with
        | none => simp
        | some p => exact Nat.le_of_lt (length_readWord hread)
      · cases h
        exact Nat.le_of_lt (length_readTag hzero)
      · cases hfield : skip (readTag buffer).1 unknownFields (readTag buffer).2 with
        | error fields => simp [hfield] at h
        | ok p =>
            rw [hfield] at h
            exact Nat.le_trans (ih h) (Nat.le_trans (hskip hfield) (Nat.le_of_lt (length_readTag hzero)))

/-- Only a group is skipped by skipping other fields. -/
theorem skipField_inv {depth : Nat} {tag : BitVec 32}
    (h : skipField depth tag unknownFields buffer = .ok (unknownFields', rest)) :
    rest.length ≤ buffer.length
      ∨ ∃ d lastTag fields, depth = d + 1
          ∧ skipMessage (skipField d) (buffer.length + 1) [] buffer = .ok (lastTag, fields, rest) := by
  unfold skipField at h
  dsimp only at h
  split at h
  · cases hread : readVarint64 buffer with
    | none => simp [hread] at h
    | some p =>
        rw [hread] at h
        cases h
        exact Or.inl (Nat.le_of_lt (length_readWord ((readVarint64_eq buffer).symm.trans hread)))
  · cases hread : readLittleEndian 64 buffer with
    | none => simp [hread] at h
    | some p =>
        rw [hread] at h
        cases h
        exact Or.inl (length_readLittleEndian hread)
  · cases hread : readVarint32 buffer with
    | none => simp [hread] at h
    | some p =>
        obtain ⟨length, behind⟩ := p
        have hlt := length_readWord ((readVarint32_eq buffer).symm.trans hread)
        rw [hread] at h
        cases hstring : readString [] length behind with
        | error value => simp [hstring] at h
        | ok p =>
            simp only [hstring] at h
            cases h
            exact Or.inl (Nat.le_trans (length_readString hstring) (Nat.le_of_lt hlt))
  · cases depth with
    | zero => cases h
    | succ d =>
        cases hmessage : skipMessage (skipField d) (buffer.length + 1) [] buffer with
        | error fields => simp [hmessage] at h
        | ok p =>
            obtain ⟨lastTag, fields, behind⟩ := p
            simp only [hmessage] at h
            split_ifs at h
            cases h
            exact Or.inr ⟨d, lastTag, fields, rfl, hmessage⟩
  · cases hread : readLittleEndian 32 buffer with
    | none => simp [hread] at h
    | some p =>
        rw [hread] at h
        cases h
        exact Or.inl (length_readLittleEndian hread)
  · cases h
  · cases h

theorem length_skipField {depth : Nat} {tag : BitVec 32}
    (h : skipField depth tag unknownFields buffer = .ok (unknownFields', rest)) : rest.length ≤ buffer.length := by
  induction depth generalizing tag unknownFields buffer unknownFields' rest with
  | zero =>
      obtain hle | ⟨d, lastTag, fields, hd, hmessage⟩ := skipField_inv h
      · exact hle
      · cases hd
  | succ depth ih =>
      obtain hle | ⟨d, lastTag, fields, hd, hmessage⟩ := skipField_inv h
      · exact hle
      · cases hd
        exact length_skipMessage ih hmessage

theorem MessageClass.length_skip {M : Type} {C : MessageClass M} {depth : Nat} {tag : BitVec 32} {m m' : M}
    (h : C.skip depth tag m buffer = .ok (m', rest)) : rest.length ≤ buffer.length := by
  rw [skip] at h
  cases hfield : skipField depth tag (C.unknownFields m) buffer with
  | error fields => simp [hfield] at h
  | ok p =>
      rw [hfield] at h
      cases h
      exact length_skipField hfield

/-! ## Jumps -/

theorem readTag_single {b : Byte} (h : b.toNat < 128) (rest : List Byte) : readTag (b :: rest) = (b.setWidth 32, rest) := by
  rw [readTag_eq, readWord_single 32 h, Option.getD_some]

namespace MessageClass

variable {M : Type} (C : MessageClass M)

/-- The case with a number is the only one. -/
theorem find_number {f : FieldCase M} (hf : f ∈ C.fields) : C.fields.find? (fun g => g.number = f.number) = some f := by
  obtain ⟨g, hfind⟩ : ∃ g, C.fields.find? (fun g => g.number = f.number) = some g := by
    rw [← Option.isSome_iff_exists, List.find?_isSome]
    exact ⟨f, hf, by simp⟩
  have hnumber : g.number = f.number := by simpa using List.find?_some hfind
  rw [hfind, List.inj_on_of_nodup_map C.distinct (List.mem_of_find?_eq_some hfind) hf hnumber]

theorem caseOf_tag {f : FieldCase M} (hf : f ∈ C.fields) : C.caseOf f.tag = some f := by
  obtain ⟨-, -, hnumber, htype⟩ := C.tags f hf
  rw [caseOf, hnumber, C.find_number hf, Option.filter_some, if_pos (by simpa using htype)]

theorem mem_of_caseOf {tag : BitVec 32} {f : FieldCase M} (h : C.caseOf tag = some f) : f ∈ C.fields := by
  rw [caseOf, Option.filter_eq_some_iff] at h
  exact List.mem_of_find?_eq_some h.1

/-- A jump leads where the next tag leads. -/
theorem expectTags_spec {f g : FieldCase M} (hf : f ∈ C.fields) {buffer rest : List Byte}
    (h : C.expectTags f.expects buffer = some (g, rest)) : g ∈ C.fields ∧ readTag buffer = (g.tag, rest)
      ∧ rest.length < buffer.length := by
  cases buffer with
  | nil => cases h
  | cons b buffer =>
      obtain ⟨e, hexpect, hlabel⟩ := Option.bind_eq_some_iff.mp h
      obtain ⟨g', hfind, heq⟩ := Option.map_eq_some_iff.mp hlabel
      cases heq
      have hb : e.1 = b := by simpa using List.find?_some hexpect
      obtain ⟨g'', hg'', hnumber, htag⟩ := C.expected f hf e (List.mem_of_find?_eq_some hexpect)
      have hsame := C.find_number hg''
      rw [hnumber, hfind] at hsame
      cases hsame
      have hlt := (C.tags g hg'').2.1
      rw [htag, hb, BitVec.toNat_setWidth_of_le (by decide)] at hlt
      exact ⟨hg'', by rw [readTag_single hlt, htag, hb], Nat.lt_succ_self _⟩

variable (depth : Nat)

/-- A field and what follows it, without jumps. -/
def readPlainly (n : Nat) (f : FieldCase M) (m : M) (buffer : List Byte) : Outcome M :=
  match f.reader.read depth m buffer with
  | .error m => .failed m
  | .ok (m, rest) => C.mergePlainly depth n m rest

/-- Jumps change nothing, and nor does it matter how many rounds are left. -/
theorem mergeFrom_eq (n : Nat) :
    (∀ m buffer n', buffer.length < n → buffer.length < n' →
        C.mergeFrom depth n none m buffer = C.mergePlainly depth n' m buffer)
      ∧ ∀ f ∈ C.fields, ∀ m buffer n', buffer.length < n → buffer.length ≤ n' →
        C.mergeFrom depth n (some f) m buffer = C.readPlainly depth n' f m buffer := by
  induction n with
  | zero => exact ⟨fun _ _ _ h => absurd h (Nat.not_lt_zero _), fun _ _ _ _ _ h => absurd h (Nat.not_lt_zero _)⟩
  | succ n ih =>
      obtain ⟨ihloop, ihlabel⟩ := ih
      refine ⟨fun m buffer n' hn hn' => ?_, fun f hf m buffer n' hn hn' => ?_⟩
      · cases n' with
        | zero => exact absurd hn' (Nat.not_lt_zero _)
        | succ n' =>
            simp only [mergeFrom, mergePlainly]
            by_cases hzero : (readTag buffer).1 = 0
            · rw [if_pos hzero, if_pos hzero]
            · have hrest := length_readTag hzero
              rw [if_neg hzero, if_neg hzero]
              cases hcase : C.caseOf (readTag buffer).1 with
              | some f => exact ihlabel f (C.mem_of_caseOf hcase) m _ n' (by omega) (by omega)
              | none =>
                  dsimp only
                  split_ifs with hend
                  · rfl
                  · cases hskip : C.skip depth (readTag buffer).1 m (readTag buffer).2 with
                    | error m => rfl
                    | ok p =>
                        have hlength := length_skip hskip
                        exact ihloop p.1 p.2 n' (by omega) (by omega)
      · rw [mergeFrom, readPlainly]
        cases hread : f.reader.read depth m buffer with
        | error m => rfl
        | ok p =>
            obtain ⟨m, rest⟩ := p
            have hrest := f.reader.consumes hread
            dsimp only
            cases hexpect : C.expectTags f.expects rest with
            | some p =>
                obtain ⟨g, rest'⟩ := p
                obtain ⟨hg, htag, hrest'⟩ := C.expectTags_spec hf hexpect
                obtain ⟨hzero, -, -, -⟩ := C.tags g hg
                cases n' with
                | zero => omega
                | succ n' =>
                    rw [mergePlainly, htag]
                    dsimp only
                    rw [if_neg hzero, C.caseOf_tag hg]
                    exact ihlabel g hg m rest' n' (by omega) (by omega)
            | none =>
                dsimp only
                split_ifs with hend
                · rw [Bool.and_eq_true, List.isEmpty_iff] at hend
                  obtain ⟨-, rfl⟩ := hend
                  cases n' with
                  | zero => omega
                  | succ n' => rfl
                · exact ihloop m rest n' (by omega) (by omega)

end MessageClass

end Sddr.Wire
