import Sddr.Wire.Lemmas.EbNCore
import Sddr.Wire.Lemmas.UnknownFields

/-!
# Theorems on the wire format
-/

namespace Sddr.Wire
open Sddr.Lib

/-! ## Numbers -/

/-- Both ways to write a number write the same bytes, as many as its size says, and it is read back from them. -/
theorem varint_written (value : BitVec 64) (value32 : BitVec 32) (rest : List Byte) :
    (writeVarintSlow 10 value = some (writeVarint64ToArray value)
      ∧ (writeVarint64ToArray value).length = varintSize64 value
      ∧ readVarint64In (writeVarint64ToArray value ++ rest) = some (some (value, rest)))
    ∧ (writeVarintSlow 5 value32 = some (writeVarint32ToArray value32)
      ∧ (writeVarint32ToArray value32).length = varintSize32 value32
      ∧ readVarint32In (writeVarint32ToArray value32 ++ rest) = some (some (value32, rest)))
    ∧ (writeVarint32SignExtendedToArray value32).length = varintSize32SignExtended value32
      ∧ readVarint32In (writeVarint32SignExtendedToArray value32 ++ rest) = some (some (value32, rest)) := by
  have h64 := value.isLt
  have h32 := value32.isLt
  have hread64 := readVarint64_writeVarint64 value rest
  have hread32 := readVarint32_writeVarint32 value32 rest
  have hsigned := readVarint32_signExtended value32 rest
  rw [readVarint64_eq] at hread64
  rw [readVarint32_eq] at hread32 hsigned
  refine ⟨⟨?_, ?_, ?_⟩, ⟨?_, ?_, ?_⟩, ?_, ?_⟩
  · rw [writeVarintSlow_eq (by decide) (Nat.lt_trans h64 (by decide)), writeVarint64ToArray_eq]
  · rw [writeVarint64ToArray_eq, varintSize64_eq]
  · rw [readVarint64In_eq, hread64]
  · rw [writeVarintSlow_eq (by decide) (Nat.lt_trans h32 (by decide)), writeVarint32ToArray_eq]
  · rw [writeVarint32ToArray_eq, varintSize32_eq]
  · rw [readVarint32In_eq, hread32]
  · rw [writeVarint32SignExtendedToArray_eq, varintSize32SignExtended_eq]
  · rw [readVarint32In_eq, hsigned]

/-- On any bytes, the unrolled loops never read behind them and agree with the loop that looks out for their end. -/
theorem varint_read (buffer : List Byte) :
    let slow := readVarint64Slow 10 0 0 buffer
    readVarint64In buffer = some slow
      ∧ readVarint32In buffer = some (slow.map fun (value, rest) => (value.setWidth 32, rest))
      ∧ readTagIn buffer = some ((slow.map fun (value, rest) => (value.setWidth 32, rest)).getD (0, buffer)) := by
  dsimp only
  rw [readVarint64Slow_start, readWord_64_32]
  exact ⟨readVarint64In_eq buffer, readVarint32In_eq buffer, readTagIn_eq buffer⟩

/-! ## Messages -/

/-- The jumps to the fields that are likely to come next change nothing: not what is read or kept, not where it fails and not
whether the message is at its end. -/
theorem mergePartial_eq_plain {M : Type} (C : MessageClass M) (depth : Nat) (m : M) {buffer : List Byte}
    (_h : buffer.length < kDefaultTotalBytesLimit) :
    C.mergePartial depth m buffer = C.mergePlainly depth (buffer.length + 1) m buffer :=
  C.mergePartial_eq_mergePlainly depth m (Nat.lt_succ_self _)

/-- An entry with a link value, a mode that is not valid and a truncated group. -/
theorem mergePartial_eq_plain_some :
    EbNCore.Entry.messageClass.mergePartial 98 {} [0x0A, 0x01, 0xFF, 0x10, 0x07, 0x1B, 0x08]
      = EbNCore.Entry.messageClass.mergePlainly 98 8 {} [0x0A, 0x01, 0xFF, 0x10, 0x07, 0x1B, 0x08] :=
  mergePartial_eq_plain EbNCore.Entry.messageClass 98 {} (by decide)

namespace EbNCore

/-- A part of a message: what an event is serialized to, or a field that no event has. -/
abbrev Part := Event ⊕ UnknownField

def Part.bytes : Part → List Byte := Sum.elim Event.serialize serializeUnknownField

/-- What the event becomes with a part. -/
def Part.mergeInto (m : Event) : Part → Event :=
  Sum.elim m.mergeFrom fun field => { m with unknownFields := m.unknownFields ++ [field] }

def Part.Fits : Part → Prop := Sum.elim (Event.Fits recursionLimit) (Event.messageClass.Unknown recursionLimit)

theorem Event.parses_parts (parts : List Part) (h : ∀ part ∈ parts, part.Fits)
    (hsize : (parts.flatMap Part.bytes).length < kDefaultTotalBytesLimit) (m : Event) :
    messageClass.Parses recursionLimit (parts.flatMap Part.bytes) m (parts.foldl Part.mergeInto m) := by
  induction parts generalizing m with
  | nil => exact .nil m
  | cons part parts ih =>
      obtain ⟨hpart, hparts⟩ := List.forall_mem_cons.mp h
      rw [List.flatMap_cons, List.length_append] at hsize
      have hrest := ih hparts (Nat.lt_of_le_of_lt (Nat.le_add_left _ _) hsize) (Part.mergeInto m part)
      rw [List.flatMap_cons]
      cases part with
      | inl event =>
          have hbytes : event.byteSize < kDefaultTotalBytesLimit := by
            rw [← event.length_serialize]
            exact Nat.lt_of_le_of_lt (Nat.le_add_right _ _) hsize
          exact (Event.parses m hpart (Nat.lt_trans hbytes (by decide))).append hrest
      | inr field => exact (hpart.keeps m).append hrest

/-- Events that stand one behind the other in the bytes are merged, and the unknown fields in between are kept. -/
theorem Event.parse_parts (parts : List Part) (h : ∀ part ∈ parts, part.Fits)
    (hsize : (parts.flatMap Part.bytes).length < kDefaultTotalBytesLimit) :
    let merged := parts.foldl Part.mergeInto {}
    parseFromCodedStream (parts.flatMap Part.bytes) = (merged.isInitialized, merged) :=
  parseFromCodedStream_of_parses (Event.parses_parts parts h hsize {})

/-- A sleep event of field 3 with an unknown group in front of it, and another one that sets its duration again and has an
unknown field of its own. -/
theorem Event.parse_parts_some :
    let parts : List Part := [.inr (.group 5 [.varint 1 7]), .inl { sleepEvent := some { duration := some 300 } },
      .inl { sleepEvent := some { duration := some 5, unknownFields := [.fixed32 9 1] } }]
    parseFromCodedStream (parts.flatMap Part.bytes)
      = ((parts.foldl Part.mergeInto {}).isInitialized, parts.foldl Part.mergeInto {}) :=
  Event.parse_parts _
    (fun part hpart => by
      simp only [List.mem_cons, List.not_mem_nil, or_false] at hpart
      rcases hpart with rfl | rfl | rfl
      · refine ⟨?_, rfl⟩
        simp [UnknownField.Fits, UnknownField.AllFit, recursionLimit]
      · constructor <;> simp [SleepEvent.Fits]
      · constructor <;> simp [SleepEvent.Fits, MessageClass.Unknown, UnknownField.Fits]
        rfl)
    (by decide)

end EbNCore

end Sddr.Wire
