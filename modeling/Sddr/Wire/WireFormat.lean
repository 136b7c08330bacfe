import Sddr.Lib.Bytes
import Sddr.Wire.CodedStream

/-!
# The wire format

The parts of `wire_format_lite.h`, `wire_format_lite_inl.h`, `wire_format.cc` and `unknown_field_set.cc` that the messages
are made of, over the bytes up to the limit of a message.
-/

namespace Sddr.Wire
open Sddr.Lib

/-! ## Tags -/

inductive WireType where
  | varint
  | fixed64
  | lengthDelimited
  | startGroup
  | endGroup
  | fixed32
  deriving DecidableEq

namespace WireType

def value : WireType → BitVec 32
  | varint => 0
  | fixed64 => 1
  | lengthDelimited => 2
  | startGroup => 3
  | endGroup => 4
  | fixed32 => 5

def all : List WireType := [varint, fixed64, lengthDelimited, startGroup, endGroup, fixed32]

end WireType

def makeTag (fieldNumber : Nat) (type : WireType) : BitVec 32 := (BitVec.ofNat 32 fieldNumber <<< 3) ||| type.value

def getTagFieldNumber (tag : BitVec 32) : Nat := (tag >>> 3).toNat

/-- Two of the eight values of three bits are no types. -/
def getTagWireType (tag : BitVec 32) : Option WireType := WireType.all.find? fun type => tag &&& 7 = type.value

/-! ## Writing -/

def zigZagEncode32 (n : BitVec 32) : BitVec 32 := (n <<< 1) ^^^ n.sshiftRight 31

def zigZagDecode32 (n : BitVec 32) : BitVec 32 := (n >>> 1) ^^^ -(n &&& 1)

section Write

variable (fieldNumber : Nat)

def writeTagToArray (type : WireType) : List Byte := writeTagValueToArray (makeTag fieldNumber type)

def writeInt32ToArray (value : BitVec 32) : List Byte :=
  writeTagToArray fieldNumber .varint ++ writeVarint32SignExtendedToArray value

def writeUInt64ToArray (value : BitVec 64) : List Byte :=
  writeTagToArray fieldNumber .varint ++ writeVarint64ToArray value

def writeSInt32ToArray (value : BitVec 32) : List Byte :=
  writeTagToArray fieldNumber .varint ++ writeVarint32ToArray (zigZagEncode32 value)

def writeBoolToArray (value : Bool) : List Byte :=
  writeTagToArray fieldNumber .varint ++ writeVarint32ToArray (if value then 1 else 0)

def writeEnumToArray (value : BitVec 32) : List Byte :=
  writeTagToArray fieldNumber .varint ++ writeVarint32SignExtendedToArray value

/-- `WriteBytesToArray` and `WriteStringToArray`. -/
def writeBytesToArray (value : List Byte) : List Byte :=
  writeTagToArray fieldNumber .lengthDelimited ++ (writeVarint32ToArray (BitVec.ofNat 32 value.length) ++ value)

def writeMessageNoVirtualToArray (cachedSize : Nat) (serialized : List Byte) : List Byte :=
  writeTagToArray fieldNumber .lengthDelimited ++ (writeVarint32ToArray (BitVec.ofNat 32 cachedSize) ++ serialized)

end Write

/-! ## Sizes -/

/-- `Int32Size`, and `EnumSize` as well. -/
def int32Size (value : BitVec 32) : Nat := varintSize32SignExtended value

def uInt64Size (value : BitVec 64) : Nat := varintSize64 value

def sInt32Size (value : BitVec 32) : Nat := varintSize32 (zigZagEncode32 value)

/-- `BytesSize`, `StringSize` and `MessageSizeNoVirtual` for their lengths. -/
def lengthDelimitedSize (length : Nat) : Nat := length + varintSize32 (BitVec.ofNat 32 length)

/-! ## Unknown fields -/

/-- A field of an `UnknownFieldSet`. -/
inductive UnknownField where
  | varint (number : Nat) (value : BitVec 64)
  | fixed32 (number : Nat) (value : BitVec 32)
  | fixed64 (number : Nat) (value : BitVec 64)
  | lengthDelimited (number : Nat) (value : List Byte)
  | group (number : Nat) (fields : List UnknownField)

namespace UnknownField

mutual

def decEq : (x y : UnknownField) → Decidable (x = y)
  | .varint m x, .varint n y => decidable_of_iff (m = n ∧ x = y) (by simp)
  | .fixed32 m x, .fixed32 n y => decidable_of_iff (m = n ∧ x = y) (by simp)
  | .fixed64 m x, .fixed64 n y => decidable_of_iff (m = n ∧ x = y) (by simp)
  | .lengthDelimited m x, .lengthDelimited n y => decidable_of_iff (m = n ∧ x = y) (by simp)
  | .group m xs, .group n ys =>
      have := decEqAll xs ys
      decidable_of_iff (m = n ∧ xs = ys) (by simp)
  | .varint .., .fixed32 .. | .varint .., .fixed64 .. | .varint .., .lengthDelimited .. | .varint .., .group ..
  | .fixed32 .., .varint .. | .fixed32 .., .fixed64 .. | .fixed32 .., .lengthDelimited .. | .fixed32 .., .group ..
  | .fixed64 .., .varint .. | .fixed64 .., .fixed32 .. | .fixed64 .., .lengthDelimited .. | .fixed64 .., .group ..
  | .lengthDelimited .., .varint .. | .lengthDelimited .., .fixed32 .. | .lengthDelimited .., .fixed64 ..
  | .lengthDelimited .., .group .. | .group .., .varint .. | .group .., .fixed32 .. | .group .., .fixed64 ..
  | .group .., .lengthDelimited .. => isFalse nofun

def decEqAll : (xs ys : List UnknownField) → Decidable (xs = ys)
  | [], [] => isTrue rfl
  | [], _ :: _ | _ :: _, [] => isFalse nofun
  | x :: xs, y :: ys =>
      have := decEq x y
      have := decEqAll xs ys
      decidable_of_iff (x = y ∧ xs = ys) (by simp)

end

instance : DecidableEq UnknownField := decEq

mutual

/-- Numbers that a tag has room for, lengths that an `int` has room for, and groups no deeper than this. -/
def Fits (depth : Nat) : UnknownField → Prop
  | .varint number _ | .fixed32 number _ | .fixed64 number _ => 0 < number ∧ number < 2 ^ 29
  | .lengthDelimited number value => (0 < number ∧ number < 2 ^ 29) ∧ value.length < 2 ^ 31
  | .group number fields => (0 < number ∧ number < 2 ^ 29) ∧ 0 < depth ∧ AllFit (depth - 1) fields

def AllFit (depth : Nat) : List UnknownField → Prop
  | [] => True
  | field :: fields => field.Fits depth ∧ AllFit depth fields

end

def number : UnknownField → Nat
  | .varint number _ | .fixed32 number _ | .fixed64 number _ | .lengthDelimited number _ | .group number _ => number

def wireType : UnknownField → WireType
  | .varint _ _ => .varint
  | .fixed32 _ _ => .fixed32
  | .fixed64 _ _ => .fixed64
  | .lengthDelimited _ _ => .lengthDelimited
  | .group _ _ => .startGroup

end UnknownField

mutual

/-- `WriteInt64ToArray` writes a number as `WriteUInt64ToArray` does. -/
def serializeUnknownField : UnknownField → List Byte
  | .varint number value => writeUInt64ToArray number value
  | .fixed32 number value => writeTagToArray number .fixed32 ++ littleEndian 4 value.toNat
  | .fixed64 number value => writeTagToArray number .fixed64 ++ littleEndian 8 value.toNat
  | .lengthDelimited number value => writeBytesToArray number value
  | .group number fields =>
      writeTagToArray number .startGroup ++ (serializeUnknownFieldsToArray fields ++ writeTagToArray number .endGroup)

def serializeUnknownFieldsToArray : List UnknownField → List Byte
  | [] => []
  | field :: fields => serializeUnknownField field ++ serializeUnknownFieldsToArray fields

end

/-- The size of a tag. -/
def tagSize (number : Nat) (type : WireType) : Nat := varintSize32 (makeTag number type)

mutual

def computeUnknownFieldSize : UnknownField → Nat
  | .varint number value => tagSize number .varint + varintSize64 value
  | .fixed32 number _ => tagSize number .fixed32 + 4
  | .fixed64 number _ => tagSize number .fixed64 + 8
  | .lengthDelimited number value =>
      tagSize number .lengthDelimited + varintSize32 (BitVec.ofNat 32 value.length) + value.length
  | .group number fields => tagSize number .startGroup + computeUnknownFieldsSize fields + tagSize number .endGroup

def computeUnknownFieldsSize : List UnknownField → Nat
  | [] => 0
  | field :: fields => computeUnknownFieldSize field + computeUnknownFieldsSize fields

end

/-! ## Reading -/

/-- `ReadLittleEndian32` and `ReadLittleEndian64`. -/
def readLittleEndian (w : Nat) (buffer : List Byte) : Option (BitVec w × List Byte) :=
  if w / 8 ≤ buffer.length then some (BitVec.ofNat w (ofLittleEndian (buffer.take (w / 8))), buffer.drop (w / 8)) else none

/-- `ReadString` into `value`. A length that is negative as an `int` leaves it alone. One that is too large leaves the bytes
in it that there were. -/
def readString (value : List Byte) (length : BitVec 32) (buffer : List Byte) : Except (List Byte) (List Byte × List Byte) :=
  if length.toInt < 0 then .error value
  else if length.toNat ≤ buffer.length then .ok (buffer.take length.toNat, buffer.drop length.toNat)
  else .error buffer

/-- `ReadBytes` and `ReadString` of a field. -/
def readBytes (value buffer : List Byte) : Except (List Byte) (List Byte × List Byte) :=
  match readVarint32 buffer with
  | none => .error value
  | some (length, rest) => readString value length rest

/-- What becomes of a set of unknown fields, and the bytes behind those that were read into it. -/
abbrev Skipped : Type := Except (List UnknownField) (List UnknownField × List Byte)

/-- `SkipMessage` with the tag that was read last, which is 0 at the end. Each round takes at least one of `n` bytes. -/
def skipMessage (skip : BitVec 32 → List UnknownField → List Byte → Skipped) :
    (n : Nat) → List UnknownField → List Byte → Except (List UnknownField) (BitVec 32 × List UnknownField × List Byte)
  | 0, unknownFields, _ => .error unknownFields
  | n + 1, unknownFields, buffer =>
      let (tag, rest) := readTag buffer
      if tag = 0 then .ok (0, unknownFields, rest)
      else if getTagWireType tag = some .endGroup then .ok (tag, unknownFields, rest)
      else
        match skip tag unknownFields rest with
        | .error unknownFields => .error unknownFields
        | .ok (unknownFields, rest) => skipMessage skip n unknownFields rest

/-- `SkipField`, where `depth` more groups may be entered. -/
def skipField (depth : Nat) (tag : BitVec 32) (unknownFields : List UnknownField) (buffer : List Byte) : Skipped :=
  let number := getTagFieldNumber tag
  match getTagWireType tag with
  | some .varint =>
      match readVarint64 buffer with
      | none => .error unknownFields
      | some (value, rest) => .ok (unknownFields ++ [.varint number value], rest)
  | some .fixed64 =>
      match readLittleEndian 64 buffer with
      | none => .error unknownFields
      | some (value, rest) => .ok (unknownFields ++ [.fixed64 number value], rest)
  | some .lengthDelimited =>
      match readVarint32 buffer with
      | none => .error unknownFields
      | some (length, rest) =>
          match readString [] length rest with
          | .error value => .error (unknownFields ++ [.lengthDelimited number value])
          | .ok (value, rest) => .ok (unknownFields ++ [.lengthDelimited number value], rest)
  | some .startGroup =>
      match depth with
      | 0 => .error unknownFields
      | depth + 1 =>
          match skipMessage (skipField depth) (buffer.length + 1) [] buffer with
          | .error fields => .error (unknownFields ++ [.group number fields])
          | .ok (lastTag, fields, rest) =>
              if lastTag = makeTag number .endGroup then .ok (unknownFields ++ [.group number fields], rest)
              else .error (unknownFields ++ [.group number fields])
  | some .fixed32 =>
      match readLittleEndian 32 buffer with
      | none => .error unknownFields
      | some (value, rest) => .ok (unknownFields ++ [.fixed32 number value], rest)
  | some .endGroup | none => .error unknownFields

end Sddr.Wire
