import Sddr.Codec.Lemmas.Base64
import Sddr.Codec.Lemmas.BinaryToUTF8
import Sddr.Codec.Lemmas.Bounds
import Sddr.Codec.Lemmas.PSIMessage
import Sddr.Codec.Lemmas.Received
import Sddr.Codec.Lemmas.Segments
import Sddr.Codec.Lemmas.SipHash
import Sddr.Codec.Lemmas.Text

/-! # Main results about bit copies and encodings -/

namespace Sddr.Codec
open Sddr.Lib

/-- The bits that are copied arrive, and every other bit of the destination stays as it is. -/
theorem bitcpy_exact (dest : Mem) (destOffset : Nat) (source : Mem) (sourceOffset length : Nat) :
    (∀ i < length,
      (bitcpy dest destOffset source sourceOffset length).bit (destOffset + i) = source.bit (sourceOffset + i)) ∧
      ∀ j, ¬ (destOffset ≤ j ∧ j < destOffset + length) →
        (bitcpy dest destOffset source sourceOffset length).bit j = dest.bit j := by
  constructor
  · intro i hi
    rw [bit_bitcpy, if_pos ⟨Nat.le_add_right _ _, Nat.add_lt_add_left hi _⟩, Nat.add_sub_cancel_left]
  · intro j hj
    rw [bit_bitcpy, if_neg hj]

/-- Between arrays that hold just the bits that are copied, a copy stays within both unless whole bytes are copied that
end with a byte of the source. -/
theorem bitcpyIn_isSome_iff (dest source : List Byte) (destOffset sourceOffset length : Nat) (hlength : 0 < length)
    (hdest : dest.length = (destOffset + length + 7) / 8) (hsource : source.length = (sourceOffset + length + 7) / 8) :
    (bitcpyIn dest destOffset source sourceOffset length).isSome ↔ ¬ Overreads destOffset sourceOffset length := by
  have hcopy := bitcpyIn_take (Mem.ofList dest) (Mem.ofList source) destOffset sourceOffset hlength
  rw [← hdest, ← hsource, Mem.take_ofList, Mem.take_ofList] at hcopy
  rw [hcopy]
  split_ifs with hoverreads
  · simp [hoverreads]
  · simp [hoverreads]

theorem bitcpyIn_isSome_iff_unaligned :
    (bitcpyIn [0, 0] 3 [0xAB] 0 8).isSome ↔ ¬ Overreads 3 0 8 :=
  bitcpyIn_isSome_iff [0, 0] [0xAB] 3 0 8 (by decide) rfl rfl

/-- A key of 192 bits goes behind the 8 bits of a number, and byte 24 of its 24 bytes is read. -/
theorem bitcpyIn_overreads :
    let dest : List Byte := List.replicate 25 0
    let source : List Byte := List.replicate 24 0xAB
    dest.length = (8 + 192 + 7) / 8 ∧ source.length = (0 + 192 + 7) / 8 ∧ ¬ (bitcpyIn dest 8 source 0 192).isSome := by
  decide +kernel

/-! ## BinaryToUTF8 -/

namespace BinaryToUTF8

/-- Decoding gives back what was encoded if and only if the bits of the last byte are not moved by padding. -/
theorem roundTrip_iff (x : BitMap) :
    (∃ bits, decode (BitMap.new x.size).bits (encode x.bits x.size) = some bits ∧
      ∀ i < x.size, (BitMap.mk x.size bits).get i = x.get i) ↔ Arrives x := by
  by_cases hindexed : encodedSize x < 2 ^ 31
  · obtain ⟨bits, hbits, hiff⟩ := decode_encode x hindexed
    constructor
    · rintro ⟨bits', hbits', heq⟩
      obtain rfl : bits = bits' := Option.some.inj (hbits.symm.trans hbits')
      exact ⟨hindexed, hiff.mp heq⟩
    · intro h
      exact ⟨bits, hbits, hiff.mpr h.lastByte_kept⟩
  · constructor
    · rintro ⟨bits, hbits, _⟩
      rw [decode_encode_none x hindexed] at hbits
      exact absurd hbits (by simp)
    · intro h
      exact absurd h.indexed hindexed

/-- An advert of zeros, whose last byte holds three bits. -/
theorem roundTrip_fails :
    let x := BitMap.new NAME_DECODED_SIZE
    ¬ ∃ bits, decode (BitMap.new x.size).bits (encode x.bits x.size) = some bits ∧
      ∀ i < x.size, (BitMap.mk x.size bits).get i = x.get i := by
  intro x
  have hindexed : encodedSize x < 2 ^ 31 := by
    show getNumEncodedBits 1723 / 8 + _ < _
    split_ifs <;> decide
  obtain ⟨bits, hbits, hiff⟩ := decode_encode x hindexed
  rintro ⟨bits', hbits', heq⟩
  obtain rfl : bits = bits' := Option.some.inj (hbits.symm.trans hbits')
  rcases hiff.mp heq with h8 | ⟨h7, _⟩ | hones
  · exact absurd h8 (by decide)
  · exact absurd h7 (by decide)
  · have hone := hones 1720 (by decide) (by decide)
    rw [BitMap.get_new] at hone
    exact absurd hone (by decide)

/-- No assert fails, and what is written is legal text: UTF-8 without NUL. -/
theorem encode_legal (input : Mem) (length : Nat) :
    encodeAsserting input length = some (encode input length) ∧ Legal (encode input length) ∧
      WellFormed (encode input length) ∧ 0 ∉ encode input length := by
  have hlegal := (encodes_encode input length).legal
  exact ⟨Encoder.runAsserting_eq input length _, hlegal, hlegal.wellFormed, hlegal.zero_notMem⟩

/-- As many bytes are written as are allocated if and only if the bits do not end with a group of zeros of its own. -/
theorem encode_size_iff (input : Mem) (length : Nat) :
    (encode input length).length = getNumEncodedBits length / 8 ↔ ¬ Dangling (stream input length) := by
  have hsize := length_encode ⟨length, input⟩
  dsimp only at hsize
  rw [hsize, encodedSize]
  split_ifs with hdangling
  · simp [hdangling]
  · simp [hdangling]

/-- Seven zeros take two bytes, and one is allocated. -/
theorem encode_size_fails : (encode (fun _ => 0) 7).length ≠ getNumEncodedBits 7 / 8 := by decide +kernel

/-- Decoding a name stays within the name, its terminator and the advert if and only if the bits of its characters fill
no more bytes than the advert has, and the index can count the characters. -/
theorem decodeIn_isSome_iff (length : Nat) (name : List Byte) :
    (decodeIn (BitMap.new length).toBytes name).isSome ↔
      numDecoded name < 2 ^ 31 ∧ (7 * numDecoded name + 7) / 8 ≤ (length + 7) / 8 := by
  rw [decodeIn_isSome, BitMap.toBytes, Mem.length_take]
  rfl

/-- The 247 characters of a name decode to 217 bytes, and the advert of an NR radio has 216. -/
theorem decodeIn_overruns :
    let name : List Byte := List.replicate 247 0x7F
    getNumEncodedBits NAME_DECODED_SIZE = name.length * 8 ∧
      ¬ (decodeIn (BitMap.new NAME_DECODED_SIZE).toBytes name).isSome := by
  constructor
  · rw [List.length_replicate]
    rfl
  · rw [decodeIn_isSome]
    decide +kernel

end BinaryToUTF8

/-! ## SegmentedBloomFilter -/

namespace SegmentedBloomFilter

/-- Whatever segments arrive, in whatever order, the filter has their bits and ones elsewhere. -/
theorem reassemble_spec {P : Type} [FloatOps P] {K : Nat} {sizes : List Nat} (f : Segmented P K sizes) (N : Nat)
    (transfers : List (Transfer sizes)) :
    let r := f.reassemble N transfers
    (∀ s : Fin sizes.length, ∀ j, InSegment sizes s j →
      r.filter.bits.get j = if s ∈ transfers.map Transfer.segment then f.filter.bits.get j else true) ∧
    (∀ s : Fin sizes.length, r.filter.isFilled s = true ↔ s ∈ transfers.map Transfer.segment) ∧
    (0 < sizes.sum → ∀ sha256 pre value, f.filter.query sha256 pre value = true →
      r.filter.query sha256 pre value = true) := by
  intro r
  have hholds : Segmented.Holds f r ((transfers.map Transfer.segment).reverse ++ []) :=
    (Segmented.holds_new f N).foldl transfers
  have hmem : ∀ s, s ∈ (transfers.map Transfer.segment).reverse ++ [] ↔ s ∈ transfers.map Transfer.segment := fun s => by
    rw [List.append_nil, List.mem_reverse]
  refine ⟨fun s j hj => ?_, fun s => (hholds.filled s).trans (hmem s), fun hpos sha256 pre value => hholds.query hpos sha256⟩
  rw [hholds.bits s j hj]
  exact if_congr (hmem s) rfl rfl

/-- The second of two segments arrives, and the first is asked for bits that are ones. -/
theorem reassemble_spec_second :
    let f : Segmented LogRate 1 [3, 5] := .new 1 1 [3, 5] true
    ∀ sha256 pre value, f.filter.query sha256 pre value = true →
      (f.reassemble 1 [⟨1, fun _ => 0, 6⟩]).filter.query sha256 pre value = true :=
  (reassemble_spec (.new 1 1 [3, 5] true) 1 [⟨1, fun _ => 0, 6⟩]).2.2 (by decide)

end SegmentedBloomFilter

/-! ## Messages of a private set intersection -/

/-- A message starts with the size of its rest, and its rest is parsed to what the message was made of. -/
theorem parse_construct (message : List Byte) (input : List Str) (hsize : framedSize input < 2 ^ 32) :
    ∃ sent, constructPSIMessage message input = some sent ∧
      sent.take 4 = littleEndian 4 (sent.drop 4).length ∧ ofLittleEndian (sent.take 4) = (sent.drop 4).length ∧
      parsePSIMessage (sent.drop 4) = some input := by
  have htake : (framed input).take 4 = littleEndian 4 (elements input).length := List.take_left' (length_littleEndian _ _)
  have hdrop : (framed input).drop 4 = elements input := List.drop_left' (length_littleEndian _ _)
  refine ⟨framed input, constructPSIMessage_eq message input hsize, ?_, ?_, ?_⟩
  · rw [htake, hdrop]
  · rw [htake, hdrop]
    apply ofLittleEndian_littleEndian
    rw [length_elements]
    unfold framedSize at hsize
    omega
  · rw [hdrop]
    exact parsePSIMessage_elements input hsize

theorem parse_construct_zeros :
    ∃ sent, constructPSIMessage [7] [[], [0, 1], []] = some sent ∧
      sent.take 4 = littleEndian 4 (sent.drop 4).length ∧ ofLittleEndian (sent.take 4) = (sent.drop 4).length ∧
      parsePSIMessage (sent.drop 4) = some [[], [0, 1], []] :=
  parse_construct [7] [[], [0, 1], []] (by decide)

/-- Nothing behind a message is read if and only if it consists of lengths that are each followed by as many bytes, to
its end or up to a length of which no string can be made. -/
theorem parsePSIMessageIn_iff {w : Nat} (refuses : List Str → Nat → Bool) (message : ByteVector w) :
    parsePSIMessageIn refuses message ≠ .outOfRange ↔ Elements refuses [] message.bytes :=
  parseElementsIn_iff (Nat.zero_le message.bytes.length)

/-- The length of a message of one byte is read off four bytes. -/
theorem parsePSIMessageIn_overreads :
    parsePSIMessageIn (fun _ _ => false) (⟨[1], by decide⟩ : ByteVector 32) = .outOfRange := by
  rw [parsePSIMessageIn, parseElementsIn_eq]
  decide +kernel

/-- What is encoded fills its string with symbols of the alphabet and at most two characters of padding behind them, has
the size of the input as its decoded size, and is decoded to the input. -/
theorem Base64.decode_encoded (input : List Byte) (hinput : input ≠ []) :
    ∃ symbols pad, Base64.encode (Mem.ofList input) input.length = some (symbols ++ List.replicate pad '=') ∧
      (symbols ++ List.replicate pad '=').length = Base64.getEncodedSize input.length ∧
      (∀ c ∈ symbols, c ∈ Base64.encodeTable) ∧ pad ≤ 2 ∧
      Base64.getDecodedSize (symbols ++ List.replicate pad '=') = some input.length ∧
      Base64.decode (symbols ++ List.replicate pad '=') = some input := by
  obtain ⟨symbols, pad, hsymbols, hpad, hencode, hcount, hsize, hdecode⟩ := Base64.encodeTo_round input hinput
  have hlength : (symbols ++ List.replicate pad '=').length = Base64.getEncodedSize input.length := by
    rw [List.length_append, List.length_replicate, hcount]
  refine ⟨symbols, pad, ?_, hlength, hsymbols, hpad, hsize, hdecode⟩
  rw [Base64.encode, hencode]
  refine (splice_append [] (List.replicate (Base64.getEncodedSize input.length) '0') _ ?_).trans ?_
  · rw [hlength, List.length_replicate]
  · rw [hlength, List.drop_eq_nil_of_le (by rw [List.length_replicate]), List.append_nil, List.nil_append]

/-- Four bytes, the last of which are in a block with two characters of padding. -/
theorem Base64.decode_encoded_four :
    ∃ symbols pad, Base64.encode (Mem.ofList [0x4D, 0x61, 0x6E, 0xFF]) 4 = some (symbols ++ List.replicate pad '=') ∧
      (symbols ++ List.replicate pad '=').length = Base64.getEncodedSize 4 ∧
      (∀ c ∈ symbols, c ∈ Base64.encodeTable) ∧ pad ≤ 2 ∧
      Base64.getDecodedSize (symbols ++ List.replicate pad '=') = some 4 ∧
      Base64.decode (symbols ++ List.replicate pad '=') = some [0x4D, 0x61, 0x6E, 0xFF] :=
  Base64.decode_encoded [0x4D, 0x61, 0x6E, 0xFF] (by decide)

/-- Both implementations compute SipHash-2-4, of which the one writes the little-endian bytes and nothing else. -/
theorem siphash24_eq (key data out : Mem) (size : Nat) :
    CSipHash.siphash24 data size key = sipHash 2 4 (key.take 16) (data.take size) ∧
      SipHash.siphash24 key data size out
        = out.copy (Mem.ofList (littleEndian 8 (CSipHash.siphash24 data size key).toNat)) 8 := by
  have hvalue := CSipHash.siphash24_spec data size key
  exact ⟨hvalue, hvalue ▸ SipHash.siphash24_spec key data size out⟩

/-- Whatever the variable for the output held before. -/
theorem SipHash.digest_eq (key output data : Mem) (size : Nat) :
    SipHash.digest key output data size = sipHash 2 4 (key.take 16) (data.take size) := by
  have hwritten : ∀ bytes : List Byte, bytes.length = 8 → (output.copy (Mem.ofList bytes) 8).take 8 = bytes := by
    intro bytes hbytes
    rw [Mem.take_copy, ← hbytes, Mem.take_ofList]
  rw [SipHash.digest, SipHash.siphash24_spec, hwritten _ (length_littleEndian _ _), word64_littleEndian]

end Sddr.Codec
