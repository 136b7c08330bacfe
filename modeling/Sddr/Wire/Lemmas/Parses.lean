import Sddr.Wire.Lemmas.Message

/-!
# Bytes of fields
-/

namespace Sddr.Wire
open Sddr.Lib

/-! ## Numbers -/

theorem readWord_varint (w : Nat) {n : Nat} (h : n < 2 ^ 64) (rest : List Byte) :
    readWord w (varint n ++ rest) = some (BitVec.ofNat w n, rest) := by
  rw [readWord, readVarint_varint (Nat.lt_trans h (by decide)), Option.map_some]

theorem readTag_writeTagToArray (number : Nat) (type : WireType) (rest : List Byte) :
    readTag (writeTagToArray number type ++ rest) = (makeTag number type, rest) := by
  have hlt := (makeTag number type).isLt
  rw [writeTagToArray, writeTagValueToArray_eq, readTag_eq, readWord_varint 32 (Nat.lt_trans hlt (by decide)), Option.getD_some,
    BitVec.ofNat_toNat, BitVec.setWidth_eq]

theorem readVarint32_writeVarint32 (value : BitVec 32) (rest : List Byte) :
    readVarint32 (writeVarint32ToArray value ++ rest) = some (value, rest) := by
  rw [readVarint32_eq, writeVarint32ToArray_eq, readWord_varint 32 (Nat.lt_trans value.isLt (by decide)), BitVec.ofNat_toNat,
    BitVec.setWidth_eq]

theorem readVarint64_writeVarint64 (value : BitVec 64) (rest : List Byte) :
    readVarint64 (writeVarint64ToArray value ++ rest) = some (value, rest) := by
  rw [readVarint64_eq, writeVarint64ToArray_eq, readWord_varint 64 value.isLt, BitVec.ofNat_toNat, BitVec.setWidth_eq]

/-- The upper half of a negative number is dropped again. -/
theorem readVarint32_signExtended (value : BitVec 32) (rest : List Byte) :
    readVarint32 (writeVarint32SignExtendedToArray value ++ rest) = some (value, rest) := by
  have hlow : BitVec.setWidth 32 (value.signExtend 64) = value := by
    apply BitVec.eq_of_getLsbD_eq
    intro i hi
    have h64 : i < 64 := Nat.lt_trans hi (by decide)
    rw [BitVec.getLsbD_setWidth, BitVec.getLsbD_signExtend, decide_eq_true hi, decide_eq_true h64, if_pos hi, Bool.true_and,
      Bool.true_and]
  rw [readVarint32_eq, writeVarint32SignExtendedToArray_eq, readWord_varint 32 (value.signExtend 64).isLt, BitVec.ofNat_toNat,
    hlow]

/-! ## The zig-zag of signed numbers -/

theorem neg_and_one (x : BitVec 32) : -(x &&& 1) = if x.getLsbD 0 then BitVec.allOnes 32 else 0 := by
  have hbit : x &&& 1 = (BitVec.ofBool (x.getLsbD 0)).setWidth 32 := BitVec.and_one_eq_setWidth_ofBool_getLsbD
  rw [hbit]
  cases x.getLsbD 0 <;> rfl

theorem getLsbD_sign (n : BitVec 32) {i : Nat} (hi : i < 32) : (n.sshiftRight 31).getLsbD i = n.msb := by
  rw [BitVec.getLsbD_sshiftRight, BitVec.msb_eq_getLsbD_last]
  rcases Nat.eq_zero_or_pos i with rfl | hpos
  · rfl
  · rw [if_neg (by omega)]
    simp [hi]

theorem zigZagDecode32_encode32 (n : BitVec 32) : zigZagDecode32 (zigZagEncode32 n) = n := by
  have hsign : (zigZagEncode32 n).getLsbD 0 = n.msb := by
    rw [zigZagEncode32, BitVec.getLsbD_xor, getLsbD_sign n (by decide), BitVec.getLsbD_shiftLeft]
    simp
  apply BitVec.eq_of_getLsbD_eq
  intro i hi
  rw [zigZagDecode32, BitVec.getLsbD_xor, BitVec.getLsbD_ushiftRight, neg_and_one, hsign, zigZagEncode32, BitVec.getLsbD_xor,
    BitVec.getLsbD_shiftLeft]
  have hmask : (if n.msb then BitVec.allOnes 32 else 0).getLsbD i = n.msb := by
    cases n.msb with
    | false => simp
    | true => rw [if_pos rfl, BitVec.getLsbD_allOnes, decide_eq_true hi]
  rw [hmask]
  rcases Nat.lt_or_ge (1 + i) 32 with hlt | hge
  · rw [getLsbD_sign n hlt]
    simp [hlt]
  · have hlast : i = 31 := by omega
    subst hlast
    simp [BitVec.msb_eq_getLsbD_last]
/-! ## Bytes that are read -/

/-- Reads exactly these bytes in front of any others. -/
def Reader.Reads {V : Type} (reader : Reader V) (depth : Nat) (bytes : List Byte) (value value' : V) : Prop :=
  ∀ rest, reader.read depth value (bytes ++ rest) = .ok (value', rest)

section Reads

variable {V M : Type} {depth : Nat}

theorem reads_uInt64 (value : BitVec 64) (old : Option (BitVec 64)) :
    Reader.uInt64.Reads depth (writeVarint64ToArray value) old (some value) := fun rest => by
  simp [Reader.uInt64, Reader.ofVarint, readVarint64_writeVarint64]

theorem reads_int32 (value : BitVec 32) (old : Option (BitVec 32)) :
    Reader.int32.Reads depth (writeVarint32SignExtendedToArray value) old (some value) := fun rest => by
  simp [Reader.int32, Reader.ofVarint, readVarint32_signExtended]

theorem reads_sInt32 (value : BitVec 32) (old : Option (BitVec 32)) :
    Reader.sInt32.Reads depth (writeVarint32ToArray (zigZagEncode32 value)) old (some value) := fun rest => by
  simp [Reader.sInt32, Reader.ofVarint, readVarint32_writeVarint32, zigZagDecode32_encode32]

theorem reads_bool (value : Bool) (old : Option Bool) :
    Reader.bool.Reads depth (writeVarint32ToArray (if value then 1 else 0)) old (some value) := fun rest => by
  cases value <;> simp [Reader.bool, Reader.ofVarint, readVarint32_writeVarint32]

theorem reads_enum (number : Nat) {valid : BitVec 32 → Option V} {value : BitVec 32} {v : V} (hvalid : valid value = some v)
    (old : Option V × List UnknownField) :
    (Reader.enum number valid).Reads depth (writeVarint32SignExtendedToArray value) old (some v, old.2) := fun rest => by
  simp [Reader.enum, Reader.ofVarint, readVarint32_signExtended, hvalid]

/-- A number that is not valid is kept as it was read. -/
theorem reads_enum_invalid (number : Nat) {valid : BitVec 32 → Option V} {value : BitVec 32} (hvalid : valid value = none)
    (old : Option V × List UnknownField) :
    (Reader.enum number valid).Reads depth (writeVarint64ToArray (value.signExtend 64)) old
      (old.1, old.2 ++ [.varint number (value.signExtend 64)]) := fun rest => by
  rw [writeVarint64ToArray_eq, ← writeVarint32SignExtendedToArray_eq]
  simp [Reader.enum, Reader.ofVarint, readVarint32_signExtended, hvalid]

theorem readString_append {value : List Byte} (h : value.length < 2 ^ 31) (old rest : List Byte) :
    readString old (BitVec.ofNat 32 value.length) (value ++ rest) = .ok (value, rest) := by
  have hlength : (BitVec.ofNat 32 value.length).toNat = value.length := by
    rw [BitVec.toNat_ofNat]
    omega
  have hint : ¬ (BitVec.ofNat 32 value.length).toInt < 0 := by
    rw [BitVec.toInt_eq_toNat_of_lt (by omega)]
    omega
  rw [readString, if_neg hint, hlength, if_pos (by simp), List.take_left, List.drop_left]

theorem reads_bytes {value : List Byte} (h : value.length < 2 ^ 31) (old : List Byte) :
    Reader.bytes.Reads depth (writeVarint32ToArray (BitVec.ofNat 32 value.length) ++ value) old value := fun rest => by
  simp only [Reader.bytes, readBytes, List.append_assoc, readVarint32_writeVarint32, readString_append h]

theorem reads_mutableField {reader : Reader V} {default : V} {bytes : List Byte} {old : Option V} {value : V}
    (h : reader.Reads depth bytes (old.getD default) value) :
    (reader.mutableField default).Reads depth bytes old (some value) := fun rest => by
  simp only [Reader.mutableField, h rest]

theorem reads_addField {reader : Reader V} {default : V} {bytes : List Byte} {value : V}
    (h : reader.Reads depth bytes default value) (old : List V) :
    (reader.addField default).Reads depth bytes old (old ++ [value]) := fun rest => by
  simp only [Reader.addField, h rest]

theorem reads_ofMember {reader : Reader V} {get : M → V} {set : M → V → M} {bytes : List Byte} {m : M} {value : V}
    (h : reader.Reads depth bytes (get m) value) : (reader.ofMember get set).Reads depth bytes m (set m value) := fun rest => by
  simp only [Reader.ofMember, h rest]

end Reads

/-! ## Bytes of a message -/

namespace MessageClass

variable {M : Type} (C : MessageClass M) {depth : Nat}

theorem mergePartial_eq_mergePlainly (depth : Nat) (m : M) {n : Nat} {buffer : List Byte} (h : buffer.length < n) :
    C.mergePartial depth m buffer = C.mergePlainly depth n m buffer :=
  (C.mergeFrom_eq depth (buffer.length + 1)).1 m buffer n (Nat.lt_succ_self _) h

theorem mergePartial_nil (depth : Nat) (m : M) : C.mergePartial depth m [] = .ended m true := rfl

theorem mergePartial_field {f : FieldCase M} (hf : f ∈ C.fields) {m m' : M} {buffer rest rest' : List Byte}
    (htag : readTag buffer = (f.tag, rest)) (hread : f.reader.read depth m rest = .ok (m', rest')) :
    C.mergePartial depth m buffer = C.mergePartial depth m' rest' := by
  obtain ⟨hzero, -, -, -⟩ := C.tags f hf
  have hlength : rest.length < buffer.length := by
    have hne : (readTag buffer).1 ≠ 0 := by rw [htag]; exact hzero
    have hlt := length_readTag hne
    rwa [htag] at hlt
  have hconsumed := f.reader.consumes hread
  rw [C.mergePartial_eq_mergePlainly depth m (Nat.lt_succ_self buffer.length),
    C.mergePartial_eq_mergePlainly depth m' (Nat.lt_trans hconsumed hlength), mergePlainly, htag]
  dsimp only
  rw [if_neg hzero, C.caseOf_tag hf]
  dsimp only
  rw [hread]

/-- The bytes of an unknown field. -/
theorem mergePartial_skip {m m' : M} {tag : BitVec 32} {buffer rest rest' : List Byte} (htag : readTag buffer = (tag, rest))
    (hzero : tag ≠ 0) (hcase : C.caseOf tag = none) (hend : getTagWireType tag ≠ some .endGroup)
    (hskip : C.skip depth tag m rest = .ok (m', rest')) : C.mergePartial depth m buffer = C.mergePartial depth m' rest' := by
  have hlength : rest'.length < buffer.length := by
    have hne : (readTag buffer).1 ≠ 0 := by rw [htag]; exact hzero
    have hlt := length_readTag hne
    rw [htag] at hlt
    exact Nat.lt_of_le_of_lt (length_skip hskip) hlt
  rw [C.mergePartial_eq_mergePlainly depth m (Nat.lt_succ_self buffer.length),
    C.mergePartial_eq_mergePlainly depth m' hlength, mergePlainly, htag]
  dsimp only
  rw [if_neg hzero, hcase]
  dsimp only
  rw [if_neg hend, hskip]

/-- Parsing these bytes takes one message to the other, and goes on behind them. -/
def Parses (depth : Nat) (bytes : List Byte) (m m' : M) : Prop :=
  ∀ rest, C.mergePartial depth m (bytes ++ rest) = C.mergePartial depth m' rest

variable {C}

theorem Parses.nil (m : M) : C.Parses depth [] m m := fun _ => rfl

theorem Parses.append {bytes bytes' : List Byte} {m n m' : M} (h : C.Parses depth bytes m n)
    (h' : C.Parses depth bytes' n m') : C.Parses depth (bytes ++ bytes') m m' := fun rest => by
  rw [List.append_assoc, h, h']

theorem Parses.mergePartial {bytes : List Byte} {m m' : M} (h : C.Parses depth bytes m m') :
    C.mergePartial depth m bytes = .ended m' true := by
  have hrest := h []
  rwa [List.append_nil, mergePartial_nil] at hrest

theorem Parses.field {f : FieldCase M} (hf : f ∈ C.fields) {bytes : List Byte} {m m' : M}
    (h : f.reader.Reads depth bytes m m') : C.Parses depth (writeTagToArray f.number f.wireType ++ bytes) m m' := fun rest => by
  refine C.mergePartial_field hf ?_ (h rest)
  rw [List.append_assoc, readTag_writeTagToArray]
  rfl

section Members

variable {α V : Type} {f : FieldCase M} {bytes : α → List Byte}

/-- A field that there may be, and what it makes of the member. -/
theorem Parses.elim (hf : f ∈ C.fields) {get : M → V} {set : M → V → M} {reader : Reader V}
    (hreader : f.reader = reader.ofMember get set) {o : Option α} {m : M} {new : α → V} (hself : set m (get m) = m)
    (hreads : ∀ value, o = some value → reader.Reads depth (bytes value) (get m) (new value)) :
    C.Parses depth (o.elim [] fun value => writeTagToArray f.number f.wireType ++ bytes value) m
      (set m (o.elim (get m) new)) := by
  cases o with
  | none =>
      rw [Option.elim_none, Option.elim_none, hself]
      exact .nil m
  | some value =>
      refine .field hf ?_
      rw [hreader]
      exact reads_ofMember (hreads value rfl)

theorem Parses.optional (hf : f ∈ C.fields) {get : M → Option α} {set : M → Option α → M} {reader : Reader (Option α)}
    (hreader : f.reader = reader.ofMember get set) {o : Option α} {m : M} (hself : set m (get m) = m)
    (hreads : ∀ value, o = some value → reader.Reads depth (bytes value) (get m) (some value)) :
    C.Parses depth (o.elim [] fun value => writeTagToArray f.number f.wireType ++ bytes value) m
      (set m (o.or (get m))) := by
  have h := Parses.elim hf hreader hself hreads
  cases o <;> exact h

/-- A number of an enumeration that there may be. -/
theorem Parses.enumeration (hf : f ∈ C.fields) {number : Nat} {valid : BitVec 32 → Option α}
    {get : M → Option α × List UnknownField} {set : M → Option α × List UnknownField → M}
    (hreader : f.reader = (Reader.enum number valid).ofMember get set) {value : α → BitVec 32}
    (hvalid : ∀ a, valid (value a) = some a) {o : Option α} {m : M} (hself : set m (get m) = m) :
    C.Parses depth
      (o.elim [] fun a => writeTagToArray f.number f.wireType ++ writeVarint32SignExtendedToArray (value a)) m
      (set m (o.or (get m).1, (get m).2)) := by
  cases o with
  | none =>
      rw [Option.elim_none, Option.none_or, hself]
      exact .nil m
  | some a =>
      refine .field hf ?_
      rw [hreader]
      exact reads_ofMember (reads_enum number (hvalid a) (get m))

/-- A field that there may be several times. -/
theorem Parses.repeated (hf : f ∈ C.fields) {get : M → List α} {set : M → List α → M} {reader : Reader (List α)}
    (hreader : f.reader = reader.ofMember get set) {l : List α} {m : M} (hself : ∀ m, set m (get m) = m)
    (hget : ∀ m values, get (set m values) = values) (hset : ∀ m values values', set (set m values) values' = set m values')
    (hreads : ∀ value ∈ l, ∀ values, reader.Reads depth (bytes value) values (values ++ [value])) :
    C.Parses depth (l.flatMap fun value => writeTagToArray f.number f.wireType ++ bytes value) m (set m (get m ++ l)) := by
  induction l generalizing m with
  | nil =>
      rw [List.append_nil, hself]
      exact .nil m
  | cons value l ih =>
      have hvalue : f.reader.Reads depth (bytes value) m (set m (get m ++ [value])) := by
        rw [hreader]
        exact reads_ofMember (hreads value (List.mem_cons_self ..) _)
      have hrest := ih (m := set m (get m ++ [value])) fun value' h => hreads value' (List.mem_cons_of_mem _ h)
      rw [hget, hset, List.append_assoc, List.singleton_append] at hrest
      rw [List.flatMap_cons]
      exact (Parses.field hf hvalue).append hrest

end Members

/-- A message in a message. -/
theorem Parses.reads_message {bytes : List Byte} {m m' : M} (h : C.Parses depth bytes m m') (hlength : bytes.length < 2 ^ 32) :
    (Reader.message C).Reads (depth + 1) (writeVarint32ToArray (BitVec.ofNat 32 bytes.length) ++ bytes) m m' := fun rest => by
  have htoNat : (BitVec.ofNat 32 bytes.length).toNat = bytes.length := by
    rw [BitVec.toNat_ofNat, Nat.mod_eq_of_lt hlength]
  simp only [Reader.message, readMessageNoVirtual, List.append_assoc, readVarint32_writeVarint32, htoNat, List.take_left,
    List.drop_left, h.mergePartial]

end MessageClass

end Sddr.Wire
