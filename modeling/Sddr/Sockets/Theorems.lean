import Sddr.Sockets.Lemmas.BluetoothHCI
import Sddr.Sockets.Lemmas.Messages
import Sddr.Sockets.Lemmas.Scan

/-!
# Theorems on sockets
-/

namespace Sddr.Sockets
open Sddr.Lib Sddr.Codec Sddr.Radio

/-! ## BluetoothHCI -/

namespace BluetoothHCI

/-- `recv` and `send` succeed only with all bytes moved in order if and only if time does not run out with bytes left. -/
theorem recv_send_iff (stream dest message : Mem) (written : List Byte) (size : Nat) (timeout startTime : BitVec 64)
    (rounds : Nat → Round) :
    ((let r := recv size timeout startTime rounds stream dest
      r.success = true → r.pos = size ∧ r.moved = ⟨size, dest.copy stream size⟩) ↔
        ¬ RunsOut size timeout startTime rounds) ∧
    ((let r := send size timeout startTime rounds message written
      r.success = true → r.pos = size ∧ r.moved = written ++ message.take size) ↔
        ¬ RunsOut size timeout startTime rounds) := by
  constructor
  · rw [← receiving_all stream dest size]
    exact transfer_full_iff (Received.mk 0 dest)
  · rw [← sending_all message written size]
    exact transfer_full_iff written

/-- A byte is missing when the clock is a millisecond past a time-out of zero. -/
theorem recv_send_fail :
    let rounds : Nat → Round := fun _ => ⟨1, 1, .bytes 1⟩
    let received := recv 1 0 0 rounds (fun _ => 0xAB) fun _ => 0
    let sent := send 1 0 0 rounds (fun _ => 0xAB) []
    received.success = true ∧ received.moved.taken = 0 ∧ sent.success = true ∧ sent.moved = [] := by
  intro rounds received sent
  have hrecv : received = ⟨true, 0, 0, fun _ => 0⟩ := by
    rw [show received = transfer _ _ _ _ _ _ _ _ from rfl, transfer, if_neg (by decide)]
  have hsend : sent = ⟨true, 0, []⟩ := by
    rw [show sent = transfer _ _ _ _ _ _ _ _ from rfl, transfer, if_neg (by decide)]
  rw [hrecv, hsend]
  exact ⟨rfl, rfl, rfl, rfl⟩

end BluetoothHCI

/-! ## Main -/

namespace Main

/-- `sendAll` and `recvAll` move everything, and fail where they should, if and only if there is no error before; for
`recvAll` the end of the stream is one, too. The message loop never ends, and waits for good when the client is gone. -/
theorem sendAll_recvAll_iff {w : Nat} (size : BitVec w) (message stream dest : Mem) (written : List Byte)
    (offers : List Offer) :
    (FullOrFails size (· = .error) offers (written ++ message.take size.toNat) (sendAll size message offers written) ↔
      ¬ FailsBefore (· = .error) size.toNat offers) ∧
    (FullOrFails size (·.amount = 0) offers ⟨size.toNat, dest.copy stream size.toNat⟩
        (recvAll size stream offers ⟨0, dest⟩) ↔
      ¬ FailsBefore (·.amount = 0) size.toNat offers) ∧
    ∀ {P D : Type} (client : Client) (loop : Loop P D) (n : Nat), receiveMessage w client loop ≠ .ended ∧
      (receiveMessage w client loop = .waiting →
        receiveMessage w client { loop with offers := loop.offers ++ List.replicate n (.bytes 0) } = .waiting) := by
  refine ⟨?_, ?_, fun client loop n => ⟨receiveMessage_ne_ended loop, receiveMessage_eof n⟩⟩
  · rw [← sending_all message written size.toNat]
    exact fullOrFails_iff (· = .error) rfl offers written
  · rw [← receiving_all stream dest size.toNat]
    exact fullOrFails_iff (·.amount = 0) rfl offers (Received.mk 0 dest)

/-- A client of whose messages none is parsed, and of whose stream nothing has come. -/
theorem sendAll_recvAll_iff_waiting :
    let client : Client := ⟨fun _ => (false, ⟨false, []⟩), fun _ => false, fun _ => 0⟩
    let loop : Loop LogRate Unit := ⟨.new ⟨.None, none⟩ .Standard 0, fun _ => 0, 0, []⟩
    receiveMessage 64 client { loop with offers := loop.offers ++ List.replicate 3 (.bytes 0) } = .waiting := by
  intro client loop
  exact ((sendAll_recvAll_iff (1 : BitVec 64) (fun _ => 0) (fun _ => 0) (fun _ => 0) [] []).2.2 client loop 3).2 rfl

/-- After an error at the start both return true with nothing moved, and `recvAll` goes on after the end of the stream. -/
theorem sendAll_recvAll_fail :
    (∃ t, sendAll (1 : BitVec 64) (fun _ => 0xAB) [.error] [] = some t ∧ t.success = true ∧ t.moved = []) ∧
    (∃ t, recvAll (1 : BitVec 64) (fun _ => 0xAB) [.error] ⟨0, fun _ => 0⟩ = some t ∧ t.success = true ∧
      t.moved.taken = 0) ∧
    recvAll (1 : BitVec 64) (fun _ => 0xAB) [.bytes 0] ⟨0, fun _ => 0⟩ = none :=
  ⟨⟨_, rfl, rfl, rfl⟩, ⟨_, rfl, rfl, rfl⟩, rfl⟩

/-- What is parsed for a message without errors is what the client sent. -/
theorem receiveMessage_full {P D : Type} {w : Nat} {client : Client} (hw : 32 ≤ w) {loop : Loop P D}
    {m : Message P D} {next : Option (Loop P D)}
    (h : receiveMessage w client loop = .handled m next) (hfull : m.full = true) :
    let messageSize := ofLittleEndian ((client.stream.add loop.taken).take 4)
    (m.parsed, m.event) = client.parse ((client.stream.add (loop.taken + 4)).take messageSize) ∧
      ∀ l, next = some l → l.taken = loop.taken + 4 + messageSize := by
  have hw32 : 2 ^ 32 ≤ 2 ^ w := Nat.pow_le_pow_right (Nat.succ_pos 1) hw
  unfold receiveMessage at h
  split at h
  · cases h
  · next header hheader =>
      split_ifs at h
      unfold receiveBody at h
      dsimp only at h
      split_ifs at h
      split at h
      · cases h
      · next body hbody =>
          cases h
          obtain ⟨hheaderFull, hbodyFull⟩ := of_decide_eq_true hfull
          obtain ⟨hsize, htaken⟩ := recvAll_moved (by omega) hheaderFull hheader
          have hlt := ofLittleEndian_lt (header.moved.dest.take 4)
          rw [Mem.length_take] at hlt
          obtain ⟨hbytes, htakenBody⟩ := recvAll_moved (by omega) hbodyFull hbody
          dsimp only at hsize htaken hbytes htakenBody
          rw [htaken, hsize] at hbytes
          rw [htaken, hsize] at htakenBody
          rw [hsize, hbytes]
          refine ⟨rfl, fun l hl => ?_⟩
          obtain ⟨radio, -, rfl⟩ := Option.map_eq_some_iff.mp hl
          exact htakenBody

/-- A run of the message loop handles all messages right if and only if no bad message is filled with a linkability event
of valid modes and other sets than there are. The sets are then those of the good messages. -/
theorem messageLoop_right_iff {P D : Type} (w : Nat) (client : Client) (n : Nat) (loop : Loop P D) :
    let run := messageLoop w client n loop
    ((∀ m ∈ run.1, m.Right) ↔ ∀ m ∈ run.1, ¬ m.Slips) ∧
      ((∀ m ∈ run.1, ¬ m.Slips) →
        radioSets run.2 = run.1.foldl (fun sets m => m.setsAfter sets) (radioSets loop.radio)) :=
  ⟨forall₂_congr fun m hm => (messageLoop_handled n loop m hm).right_iff, messageLoop_sets n loop⟩

theorem messageLoop_right_iff_single :
    let client : Client := ⟨fun _ => (true, ⟨true, []⟩), fun _ => false, Mem.ofList [1, 0, 0, 0, 7]⟩
    let loop : Loop LogRate Unit := ⟨.new ⟨.None, none⟩ .Standard 0, fun _ => 0, 0, [.bytes 4, .bytes 1]⟩
    radioSets (messageLoop 64 client 1 loop).2
      = (messageLoop 64 client 1 loop).1.foldl (fun sets m => m.setsAfter sets) (radioSets loop.radio) :=
  have hgood : ∀ m ∈ (messageLoop 64 ⟨fun _ => (true, ⟨true, []⟩), fun _ => false, Mem.ofList [1, 0, 0, 0, 7]⟩ 1
      (⟨.new ⟨.None, none⟩ .Standard 0, fun _ => 0, 0, [.bytes 4, .bytes 1]⟩ : Loop LogRate Unit)).1, m.Good :=
    List.forall_mem_cons.mpr ⟨⟨rfl, rfl⟩, fun _ hm => absurd hm List.not_mem_nil⟩
  (messageLoop_right_iff 64 _ 1 _).2 fun m hm hslips => hslips.bad (hgood m hm)

/-- A body of the one byte 0x0A, the start of a linkability event, is not parsed and clears both sets. -/
theorem messageLoop_slips :
    let client : Client :=
      ⟨fun body => (false, ⟨body == [0x0A], []⟩), fun _ => false, Mem.ofList [1, 0, 0, 0, 0x0A]⟩
    let radio : EbNRadio LogRate Unit := .new ⟨.None, none⟩ .Standard 0
    let loop : Loop LogRate Unit :=
      ⟨(radio.setAdvertisedSet [[7]]).setListenSet [[7]], fun _ => 0, 0, [.bytes 4, .bytes 1]⟩
    ∃ m ∈ (messageLoop 64 client 1 loop).1, m.full = true ∧ m.parsed = false ∧
      radioSets m.before = ([[7]], [[7]]) ∧ radioSets m.after = ([], []) :=
  ⟨_, List.mem_cons_self, rfl, rfl, rfl, rfl⟩

end Main

/-! ## Scan events -/

/-- An event is parsed inside its bytes, and its complete reports are shown in order, if and only if it has all the
reports that it counts. -/
theorem BluetoothHCI.parsed_iff (stale : Mem) (event : List Byte) :
    (ParsedInside stale event ∧ ParsedInOrder stale event) ↔ Complete event :=
  (and_iff_left (parsedInOrder stale event)).trans parsedInside_iff

/-- An event that counts a report it does not have, one whose report is longer than it, and one without a header. -/
theorem BluetoothHCI.parsed_outside :
    ([0x04, 0x3E, 2, 0x02, 1] : List Byte).length ≤ HCI_MAX_EVENT_SIZE ∧
      ¬ (ParsedInside (fun _ => 0) [0x04, 0x3E, 2, 0x02, 1] ∧ ParsedInOrder (fun _ => 0) [0x04, 0x3E, 2, 0x02, 1]) ∧
      ¬ ParsedInside (fun _ => 0) [0x04, 0x3E, 12, 0x02, 1, 0, 0, 1, 2, 3, 4, 5, 6, 31, 0xC0] ∧
      ¬ ParsedInside (fun _ => 0) [0x04] := by
  have hcount : ¬ ParsedInside (fun _ => 0) [0x04, 0x3E, 2, 0x02, 1] := by
    unfold ParsedInside
    decide
  refine ⟨by decide, fun h => hcount h.1, ?_, ?_⟩
  · unfold ParsedInside
    decide
  · unfold ParsedInside
    decide

end Sddr.Sockets
