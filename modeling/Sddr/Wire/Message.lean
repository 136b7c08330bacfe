import Sddr.Wire.Lemmas.CodedStream
import Sddr.Wire.WireFormat

/-!
# Messages

What the generated `MergePartialFromCodedStream` of all messages has in common. Its `switch` has a case for each field. Behind
a field it looks for the tags that are likely to come next, and jumps to their fields without a look at the `switch`. All this
is over arrays of fewer than `kDefaultTotalBytesLimit` bytes, in which `total_bytes_limit_` is never met.
-/

namespace Sddr.Wire
open Sddr.Lib

/-! ## Readers -/

/-- Reads into a value, where `depth` more messages may be entered. A value that could not be read is left as it is then. -/
structure Reader (V : Type) where
  read : (depth : Nat) → V → List Byte → Except V (V × List Byte)
  consumes : ∀ {depth value buffer value' rest}, read depth value buffer = .ok (value', rest) → rest.length < buffer.length

theorem length_readWord {w : Nat} {buffer rest : List Byte} {value : BitVec w} (h : readWord w buffer = some (value, rest)) :
    rest.length < buffer.length := by
  obtain ⟨⟨n, rest'⟩, hread, heq⟩ := Option.map_eq_some_iff.mp h
  cases heq
  exact length_readVarint hread

theorem length_readString {length : BitVec 32} {value buffer value' rest : List Byte}
    (h : readString value length buffer = .ok (value', rest)) : rest.length ≤ buffer.length := by
  rw [readString] at h
  split_ifs at h
  cases h
  simp

namespace Reader

variable {V M : Type}

/-- A number. Without one, the value is left alone. -/
def ofVarint {w : Nat} (readVarint : List Byte → Option (BitVec w × List Byte))
    (heq : ∀ buffer, readVarint buffer = readWord w buffer)
    (set : BitVec w → V → V) : Reader V where
  read _ value buffer :=
    match readVarint buffer with
    | none => .error value
    | some (n, rest) => .ok (set n value, rest)
  consumes {_ value buffer value' rest} h := by
    cases hread : readVarint buffer with
    | none => simp [hread] at h
    | some p =>
        obtain ⟨n, rest'⟩ := p
        rw [hread] at h
        cases h
        exact length_readWord ((heq buffer).symm.trans hread)

/-- `ReadPrimitive` of `TYPE_UINT64`. -/
def uInt64 : Reader (Option (BitVec 64)) := ofVarint readVarint64 readVarint64_eq fun n _ => some n

/-- `ReadPrimitive` of `TYPE_INT32`. -/
def int32 : Reader (Option (BitVec 32)) := ofVarint readVarint32 readVarint32_eq fun n _ => some n

/-- `ReadPrimitive` of `TYPE_SINT32`. -/
def sInt32 : Reader (Option (BitVec 32)) := ofVarint readVarint32 readVarint32_eq fun n _ => some (zigZagDecode32 n)

/-- `ReadPrimitive` of `TYPE_BOOL`. -/
def bool : Reader (Option Bool) := ofVarint readVarint32 readVarint32_eq fun n _ => some (n != 0)

/-- `ReadPrimitive` of `TYPE_ENUM`. A number that is not valid goes to the unknown fields. -/
def enum (number : Nat) (valid : BitVec 32 → Option V) : Reader (Option V × List UnknownField) :=
  ofVarint readVarint32 readVarint32_eq fun n (value, unknownFields) =>
    match valid n with
    | some v => (some v, unknownFields)
    | none => (value, unknownFields ++ [.varint number (n.signExtend 64)])

/-- `ReadBytes` and `ReadString`. -/
def bytes : Reader (List Byte) where
  read _ value buffer := readBytes value buffer
  consumes {_ value buffer value' rest} h := by
    rw [readBytes] at h
    cases hread : readVarint32 buffer with
    | none => simp [hread] at h
    | some p =>
        obtain ⟨length, rest'⟩ := p
        have hlt := length_readWord ((readVarint32_eq buffer).symm.trans hread)
        simp only [hread] at h
        exact Nat.lt_of_le_of_lt (length_readString h) hlt

/-- A field that there may be already, and then is read into. -/
def mutableField (reader : Reader V) (default : V) : Reader (Option V) where
  read depth value buffer :=
    match reader.read depth (value.getD default) buffer with
    | .error value => .error (some value)
    | .ok (value, rest) => .ok (some value, rest)
  consumes {depth value buffer value' rest} h := by
    cases hread : reader.read depth (value.getD default) buffer with
    | error e => simp [hread] at h
    | ok p =>
        rw [hread] at h
        cases h
        exact reader.consumes hread

/-- One more of a repeated field. -/
def addField (reader : Reader V) (default : V) : Reader (List V) where
  read depth values buffer :=
    match reader.read depth default buffer with
    | .error value => .error (values ++ [value])
    | .ok (value, rest) => .ok (values ++ [value], rest)
  consumes {depth value buffer value' rest} h := by
    cases hread : reader.read depth default buffer with
    | error e => simp [hread] at h
    | ok p =>
        rw [hread] at h
        cases h
        exact reader.consumes hread

/-- The reader of a member. -/
def ofMember (reader : Reader V) (get : M → V) (set : M → V → M) : Reader M where
  read depth m buffer :=
    match reader.read depth (get m) buffer with
    | .error value => .error (set m value)
    | .ok (value, rest) => .ok (set m value, rest)
  consumes {depth m buffer m' rest} h := by
    cases hread : reader.read depth (get m) buffer with
    | error e => simp [hread] at h
    | ok p =>
        rw [hread] at h
        cases h
        exact reader.consumes hread

end Reader

/-! ## Fields -/

/-- A case of the `switch`. Each expected tag comes with the number of the field that it leads to. -/
structure FieldCase (M : Type) where
  number : Nat
  wireType : WireType
  reader : Reader M
  expects : List (Byte × Nat)
  endsAfter : Bool

def FieldCase.tag {M : Type} (f : FieldCase M) : BitVec 32 := makeTag f.number f.wireType

/-- The cases of a message, and where it keeps the fields without a case. The tags that are expected are those of the fields
that they lead to. -/
structure MessageClass (M : Type) where
  fields : List (FieldCase M)
  unknownFields : M → List UnknownField
  setUnknownFields : M → List UnknownField → M
  unknownFields_set : ∀ m fields, unknownFields (setUnknownFields m fields) = fields := by intros; rfl
  set_unknownFields : ∀ m, setUnknownFields m (unknownFields m) = m := by intros; rfl
  set_set : ∀ m fields fields', setUnknownFields (setUnknownFields m fields) fields' = setUnknownFields m fields' := by
    intros; rfl
  tags : ∀ f ∈ fields, f.tag ≠ 0 ∧ f.tag.toNat < 128 ∧
    getTagFieldNumber f.tag = f.number ∧ getTagWireType f.tag = some f.wireType
  expected : ∀ f ∈ fields, ∀ e ∈ f.expects, ∃ g ∈ fields, g.number = e.2 ∧ g.tag = e.1.setWidth 32
  distinct : (fields.map FieldCase.number).Nodup

/-! ## Parsing -/

/-- What `MergePartialFromCodedStream` returns, the message then, and what `ConsumedEntireMessage` would return. -/
inductive Outcome (M : Type) where
  | failed (message : M)
  | ended (message : M) (consumedEntireMessage : Bool)
  deriving DecidableEq

namespace MessageClass

variable {M : Type} (C : MessageClass M)

/-- The case for a tag, if its type is that of the field. -/
def caseOf (tag : BitVec 32) : Option (FieldCase M) :=
  (C.fields.find? fun f => f.number = getTagFieldNumber tag).filter fun f => getTagWireType tag = some f.wireType

/-- A field without a case. -/
def Unknown (C : MessageClass M) (depth : Nat) (field : UnknownField) : Prop :=
  field.Fits depth ∧ C.caseOf (makeTag field.number field.wireType) = none

/-- `SkipField` into `mutable_unknown_fields()`. -/
def skip (depth : Nat) (tag : BitVec 32) (m : M) (buffer : List Byte) : Except M (M × List Byte) :=
  match skipField depth tag (C.unknownFields m) buffer with
  | .error unknownFields => .error (C.setUnknownFields m unknownFields)
  | .ok (unknownFields, rest) => .ok (C.setUnknownFields m unknownFields, rest)

/-- The calls of `ExpectTag` behind a field. -/
def expectTags (expects : List (Byte × Nat)) : List Byte → Option (FieldCase M × List Byte)
  | [] => none
  | b :: rest =>
      (expects.find? fun e => e.1 = b).bind fun e => (C.fields.find? fun f => f.number = e.2).map (·, rest)

/-- `MergePartialFromCodedStream` from its loop on, or from the label of a field on. A round and a field each take at least one
of `n` bytes. -/
def mergeFrom (depth : Nat) : (n : Nat) → (label : Option (FieldCase M)) → M → List Byte → Outcome M
  | 0, _, m, _ => .failed m
  | n + 1, none, m, buffer =>
      let (tag, rest) := readTag buffer
      if tag = 0 then .ended m buffer.isEmpty
      else
        match C.caseOf tag with
        | some f => mergeFrom depth n (some f) m rest
        | none =>
            if getTagWireType tag = some .endGroup then .ended m false
            else
              match C.skip depth tag m rest with
              | .error m => .failed m
              | .ok (m, rest) => mergeFrom depth n none m rest
  | n + 1, some f, m, buffer =>
      match f.reader.read depth m buffer with
      | .error m => .failed m
      | .ok (m, rest) =>
          match C.expectTags f.expects rest with
          | some (g, rest) => mergeFrom depth n (some g) m rest
          | none => if f.endsAfter && rest.isEmpty then .ended m true else mergeFrom depth n none m rest

/-- `MergePartialFromCodedStream`. -/
def mergePartial (depth : Nat) (m : M) (buffer : List Byte) : Outcome M := C.mergeFrom depth (buffer.length + 1) none m buffer

/-- The same without jumps: one tag after the other goes through the `switch`. -/
def mergePlainly (depth : Nat) : (n : Nat) → M → List Byte → Outcome M
  | 0, m, _ => .failed m
  | n + 1, m, buffer =>
      let (tag, rest) := readTag buffer
      if tag = 0 then .ended m buffer.isEmpty
      else
        match C.caseOf tag with
        | some f =>
            match f.reader.read depth m rest with
            | .error m => .failed m
            | .ok (m, rest) => mergePlainly depth n m rest
        | none =>
            if getTagWireType tag = some .endGroup then .ended m false
            else
              match C.skip depth tag m rest with
              | .error m => .failed m
              | .ok (m, rest) => mergePlainly depth n m rest

end MessageClass

/-! ## Nested messages -/

/-- `ReadMessageNoVirtual`. The limit of the message is where the bytes end if its length goes further. -/
def readMessageNoVirtual {M : Type} (C : MessageClass M) (depth : Nat) (value : M) (buffer : List Byte) :
    Except M (M × List Byte) :=
  match readVarint32 buffer, depth with
  | none, _ | some _, 0 => .error value
  | some (length, rest), depth + 1 =>
      match C.mergePartial depth value (rest.take length.toNat) with
      | .failed value | .ended value false => .error value
      | .ended value true => .ok (value, rest.drop length.toNat)

/-- The reader of a nested message. -/
def Reader.message {M : Type} (C : MessageClass M) : Reader M where
  read := readMessageNoVirtual C
  consumes {depth value buffer value' rest} h := by
    unfold readMessageNoVirtual at h
    split at h
    · cases h
    · cases h
    · next length rest' depth hread =>
        have hlt := length_readWord ((readVarint32_eq buffer).symm.trans hread)
        split at h
        · cases h
        · cases h
        · cases h
          exact Nat.lt_of_le_of_lt (by simp) hlt

end Sddr.Wire
