import Sddr.Wire.Lemmas.Parses

/-!
# Unknown fields

Fields without a case are kept as they stand in the bytes, and are serialized to the same bytes again.
-/

namespace Sddr.Wire
open Sddr.Lib

/-! ## Tags -/

section Tags

variable {number : Nat} {type : WireType}

theorem WireType.value_lt (type : WireType) : type.value.toNat < 2 ^ 3 := by cases type <;> decide

theorem toNat_makeTag (h : number < 2 ^ 29) : (makeTag number type).toNat = type.value.toNat + 8 * number := by
  have hvalue := type.value_lt
  have hsum : BitVec.ofNat 32 (type.value.toNat + 8 * number)
      = BitVec.ofNat 32 type.value.toNat ||| (BitVec.ofNat 32 number <<< 3) := ofNat_add_mul (k := 3) hvalue number
  rw [BitVec.ofNat_toNat, BitVec.setWidth_eq, BitVec.or_comm] at hsum
  rw [makeTag, ← hsum, BitVec.toNat_ofNat, Nat.mod_eq_of_lt (by omega)]

theorem makeTag_ne_zero (hpos : 0 < number) (h : number < 2 ^ 29) : makeTag number type ≠ 0 := fun hzero => by
  have htoNat := @toNat_makeTag number type h
  rw [hzero] at htoNat
  simp only [BitVec.ofNat_eq_ofNat, BitVec.toNat_ofNat, Nat.zero_mod] at htoNat
  omega

@[simp] theorem getTagFieldNumber_makeTag (h : number < 2 ^ 29) : getTagFieldNumber (makeTag number type) = number := by
  have hvalue := type.value_lt
  rw [getTagFieldNumber, BitVec.toNat_ushiftRight, toNat_makeTag h, Nat.shiftRight_eq_div_pow]
  omega

@[simp] theorem getTagWireType_makeTag (h : number < 2 ^ 29) : getTagWireType (makeTag number type) = some type := by
  have hvalue := type.value_lt
  have hand : makeTag number type &&& 7 = type.value := by
    have h7 : (7 : BitVec 32).toNat = 2 ^ 3 - 1 := rfl
    apply BitVec.eq_of_toNat_eq
    rw [BitVec.toNat_and, h7, Nat.and_two_pow_sub_one_eq_mod, toNat_makeTag h]
    omega
  rw [getTagWireType, hand]
  cases type <;> rfl

end Tags

/-! ## Fields -/

/-- What stands behind the tag of a field. -/
def UnknownField.payload : UnknownField → List Byte
  | .varint _ value => writeVarint64ToArray value
  | .fixed32 _ value => littleEndian 4 value.toNat
  | .fixed64 _ value => littleEndian 8 value.toNat
  | .lengthDelimited _ value => writeVarint32ToArray (BitVec.ofNat 32 value.length) ++ value
  | .group number fields => serializeUnknownFieldsToArray fields ++ writeTagToArray number .endGroup

theorem serializeUnknownField_eq (field : UnknownField) :
    serializeUnknownField field = writeTagToArray field.number field.wireType ++ field.payload := by
  cases field <;> rfl

theorem UnknownField.wireType_ne_endGroup (field : UnknownField) : field.wireType ≠ .endGroup := by cases field <;> nofun

theorem UnknownField.Fits.number_lt {depth : Nat} {field : UnknownField} (h : field.Fits depth) :
    0 < field.number ∧ field.number < 2 ^ 29 := by
  cases field with
  | varint | fixed32 | fixed64 => exact h
  | lengthDelimited | group => exact h.1

theorem readLittleEndian_append {k : Nat} (value : BitVec (8 * k)) (rest : List Byte) :
    readLittleEndian (8 * k) (littleEndian k value.toNat ++ rest) = some (value, rest) := by
  have hbytes : 8 * k / 8 = (littleEndian k value.toNat).length := by
    rw [length_littleEndian]
    omega
  have hlt : value.toNat < 256 ^ k := by
    have hpow : (256 : Nat) ^ k = 2 ^ (8 * k) := by rw [Nat.pow_mul]
    rw [hpow]
    exact value.isLt
  rw [readLittleEndian, hbytes, if_pos (by simp), List.take_left, List.drop_left, ofLittleEndian_littleEndian hlt,
    BitVec.ofNat_toNat, BitVec.setWidth_eq]

theorem readTag_nonzero {n : Nat} {skip : BitVec 32 → List UnknownField → List Byte → Skipped} {tag : BitVec 32}
    {buffer rest : List Byte} (htag : readTag buffer = (tag, rest)) (hzero : tag ≠ 0) (fields : List UnknownField) :
    skipMessage skip (n + 1) fields buffer
      = if getTagWireType tag = some .endGroup then .ok (tag, fields, rest)
        else
          match skip tag fields rest with
          | .error fields => .error fields
          | .ok (fields, rest) => skipMessage skip n fields rest := by
  rw [skipMessage, htag]
  exact if_neg hzero

/-! ## Sizes -/

theorem length_tag (number : Nat) (type : WireType) : (writeTagToArray number type).length = tagSize number type := by
  rw [writeTagToArray, writeTagValueToArray_eq, tagSize, varintSize32_eq]

mutual

theorem length_serializeUnknownField : (field : UnknownField) →
    (serializeUnknownField field).length = computeUnknownFieldSize field
  | .varint number value => by
      rw [serializeUnknownField, computeUnknownFieldSize, writeUInt64ToArray, List.length_append, length_tag,
        writeVarint64ToArray_eq, varintSize64_eq]
  | .fixed32 number value | .fixed64 number value => by
      rw [serializeUnknownField, computeUnknownFieldSize, List.length_append, length_tag, length_littleEndian]
  | .lengthDelimited number value => by
      rw [serializeUnknownField, computeUnknownFieldSize, writeBytesToArray, List.length_append, List.length_append,
        length_tag, writeVarint32ToArray_eq, varintSize32_eq, Nat.add_assoc]
  | .group number fields => by
      rw [serializeUnknownField, computeUnknownFieldSize, List.length_append, List.length_append, length_tag, length_tag,
        length_serializeUnknownFields fields, Nat.add_assoc]

theorem length_serializeUnknownFields : (fields : List UnknownField) →
    (serializeUnknownFieldsToArray fields).length = computeUnknownFieldsSize fields
  | [] => rfl
  | field :: fields => by
      rw [serializeUnknownFieldsToArray, computeUnknownFieldsSize, List.length_append, length_serializeUnknownField field,
        length_serializeUnknownFields fields]

end

theorem serializeUnknownField_pos (field : UnknownField) : 0 < (serializeUnknownField field).length := by
  have htag : 0 < (writeTagToArray field.number field.wireType).length := by
    rw [writeTagToArray, writeTagValueToArray_eq]
    exact length_varint_pos _
  rw [serializeUnknownField_eq, List.length_append]
  omega

theorem le_length_serializeUnknownFields (fields : List UnknownField) :
    fields.length ≤ (serializeUnknownFieldsToArray fields).length := by
  induction fields with
  | nil => exact Nat.zero_le _
  | cons field fields ih =>
      have hfield := serializeUnknownField_pos field
      rw [serializeUnknownFieldsToArray, List.length_append, List.length_cons]
      omega

/-! ## Reading what was written -/

mutual

theorem skipField_unknown : (depth : Nat) → (field : UnknownField) → field.Fits depth → ∀ unknownFields rest,
    skipField depth (makeTag field.number field.wireType) unknownFields (field.payload ++ rest)
      = .ok (unknownFields ++ [field], rest)
  | depth, .varint number value, h, unknownFields, rest => by
      unfold skipField
      simp only [UnknownField.number, UnknownField.wireType, UnknownField.payload, getTagWireType_makeTag h.2,
        getTagFieldNumber_makeTag h.2, readVarint64_writeVarint64]
  | depth, .fixed32 number value, h, unknownFields, rest => by
      have hread : readLittleEndian 32 (littleEndian 4 value.toNat ++ rest) = some (value, rest) :=
        readLittleEndian_append (k := 4) value rest
      unfold skipField
      simp only [UnknownField.number, UnknownField.wireType, UnknownField.payload, getTagWireType_makeTag h.2,
        getTagFieldNumber_makeTag h.2, hread]
  | depth, .fixed64 number value, h, unknownFields, rest => by
      have hread : readLittleEndian 64 (littleEndian 8 value.toNat ++ rest) = some (value, rest) :=
        readLittleEndian_append (k := 8) value rest
      unfold skipField
      simp only [UnknownField.number, UnknownField.wireType, UnknownField.payload, getTagWireType_makeTag h.2,
        getTagFieldNumber_makeTag h.2, hread]
  | depth, .lengthDelimited number value, h, unknownFields, rest => by
      unfold skipField
      simp only [UnknownField.number, UnknownField.wireType, UnknownField.payload, getTagWireType_makeTag h.1.2,
        getTagFieldNumber_makeTag h.1.2, List.append_assoc, readVarint32_writeVarint32, readString_append h.2]
  | 0, .group number fields, h, unknownFields, rest => absurd h.2.1 (Nat.lt_irrefl 0)
  | depth + 1, .group number fields, h, unknownFields, rest => by
      have hlength := le_length_serializeUnknownFields fields
      have hmessage := skipMessage_unknown depth number h.1.1 h.1.2 fields h.2.2
        ((serializeUnknownFieldsToArray fields ++ (writeTagToArray number .endGroup ++ rest)).length + 1) [] rest
        (by rw [List.length_append]; omega)
      unfold skipField
      simp only [UnknownField.number, UnknownField.wireType, UnknownField.payload, getTagWireType_makeTag h.1.2,
        getTagFieldNumber_makeTag h.1.2, List.append_assoc, hmessage, if_true, List.nil_append]

theorem skipMessage_unknown : (depth number : Nat) → 0 < number → number < 2 ^ 29 → (fields : List UnknownField) →
    UnknownField.AllFit depth fields → ∀ (n : Nat) (unknownFields : List UnknownField) (rest : List Byte),
      fields.length < n →
        skipMessage (skipField depth) n unknownFields
            (serializeUnknownFieldsToArray fields ++ (writeTagToArray number .endGroup ++ rest))
          = .ok (makeTag number .endGroup, unknownFields ++ fields, rest)
  | _, _, _, _, _, _, 0, _, _, hn => absurd hn (Nat.not_lt_zero _)
  | depth, number, hpos, hnumber, [], _, n + 1, unknownFields, rest, _ => by
      rw [serializeUnknownFieldsToArray, List.nil_append, List.append_nil,
        readTag_nonzero (readTag_writeTagToArray number .endGroup rest) (makeTag_ne_zero hpos hnumber),
        getTagWireType_makeTag hnumber, if_pos rfl]
  | depth, number, hpos, hnumber, field :: fields, h, n + 1, unknownFields, rest, hn => by
      have hfield := h.1.number_lt
      have htype : ¬ getTagWireType (makeTag field.number field.wireType) = some .endGroup := by
        rw [getTagWireType_makeTag hfield.2]
        exact fun hend => field.wireType_ne_endGroup (Option.some.inj hend)
      have hrest := skipMessage_unknown depth number hpos hnumber fields h.2 n (unknownFields ++ [field]) rest
        (Nat.lt_of_succ_lt_succ hn)
      rw [serializeUnknownFieldsToArray, serializeUnknownField_eq, List.append_assoc, List.append_assoc,
        readTag_nonzero (readTag_writeTagToArray field.number field.wireType _) (makeTag_ne_zero hfield.1 hfield.2),
        if_neg htype, skipField_unknown depth field h.1]
      dsimp only
      rw [hrest, List.append_assoc, List.singleton_append]

end

namespace MessageClass

variable {M : Type} {C : MessageClass M} {depth : Nat} {field : UnknownField}

/-- A field that is added to those that a message keeps. -/
def Keeps (C : MessageClass M) (depth : Nat) (field : UnknownField) : Prop :=
  ∀ m, C.Parses depth (serializeUnknownField field) m (C.setUnknownFields m (C.unknownFields m ++ [field]))

theorem Unknown.keeps (h : C.Unknown depth field) : C.Keeps depth field := fun m rest => by
  have hnumber := h.1.number_lt
  have hend : getTagWireType (makeTag field.number field.wireType) ≠ some .endGroup := by
    rw [getTagWireType_makeTag hnumber.2]
    exact fun hend => field.wireType_ne_endGroup (Option.some.inj hend)
  rw [serializeUnknownField_eq, List.append_assoc]
  refine C.mergePartial_skip (readTag_writeTagToArray field.number field.wireType _) (makeTag_ne_zero hnumber.1 hnumber.2)
    h.2 hend ?_
  rw [skip, skipField_unknown depth field h.1]

theorem Parses.unknownFields {fields : List UnknownField} (h : ∀ field ∈ fields, C.Keeps depth field) (m : M) :
    C.Parses depth (serializeUnknownFieldsToArray fields) m (C.setUnknownFields m (C.unknownFields m ++ fields)) := by
  induction fields generalizing m with
  | nil =>
      rw [List.append_nil, C.set_unknownFields]
      exact .nil m
  | cons field fields ih =>
      obtain ⟨hfield, hfields⟩ := List.forall_mem_cons.mp h
      have hrest := ih hfields (C.setUnknownFields m (C.unknownFields m ++ [field]))
      rw [C.unknownFields_set, C.set_set, List.append_assoc, List.singleton_append] at hrest
      exact (hfield m).append hrest

end MessageClass

end Sddr.Wire
