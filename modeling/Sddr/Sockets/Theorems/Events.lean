import Sddr.Sockets.Lemmas.Events

/-!
# Theorems on events
-/

namespace Sddr.Sockets.Main
open Sddr.Lib Sddr.Codec Sddr.Wire Sddr.Device Sddr.Radio

variable {P D : Type}

/-- What is sent for an encounter fills its vector, says its own size and is parsed to the same event. -/
theorem notifyEncounter_parsed (sddrStartTimestamp : BitVec 64) (event : EncounterEvent P)
    (h : (fullEvent sddrStartTimestamp event).byteSize < kDefaultTotalBytesLimit) :
    ∃ header body, notifyEncounter sddrStartTimestamp event = some (header ++ body) ∧ header.length = 4
      ∧ ofLittleEndian header = body.length ∧ body.length = (fullEvent sddrStartTimestamp event).byteSize
      ∧ EbNCore.Event.parseFromCodedStream body = (true, fullEvent sddrStartTimestamp event) := by
  have hlength := (fullEvent sddrStartTimestamp event).length_serialize
  refine ⟨_, _, message_eq _, length_littleEndian _ _, ?_, hlength, ?_⟩
  · rw [ofLittleEndian_littleEndian (Nat.lt_trans h (by decide)), hlength]
  · rw [EbNCore.Event.parseFromCodedStream_serialize (fullEvent_fits _ event) (Nat.lt_trans h (by decide))]
    simp [fullEvent, EbNCore.Event.isInitialized, EbNCore.EncounterEvent.isInitialized, EbNCore.RSSIEvent.isInitialized]

theorem notifyEncounter_parsed_some :
    let event : EncounterEvent LogRate := { EncounterEvent.new .Ended 7 1 with rssiEvents := [⟨5, 0xBA⟩], matching := [[1, 2]] }
    ∃ header body, notifyEncounter 1000 event = some (header ++ body) ∧ header.length = 4
      ∧ ofLittleEndian header = body.length ∧ body.length = (fullEvent 1000 event).byteSize
      ∧ EbNCore.Event.parseFromCodedStream body = (true, fullEvent 1000 event) :=
  notifyEncounter_parsed 1000 _ (by decide +kernel)

/-- The events that a client sends are handled in their order, each once, however the socket splits their bytes. The sets are
those of the last event with a linkability event, and no event is left when there are enough calls of `read`. -/
theorem messageLoop_in_order {w : Nat} (hw : 32 ≤ w) {client : Client} (hparse : client.parse = parse) {events : List EbNCore.Event}
    (hevents : ∀ event ∈ events, event.Fits EbNCore.recursionLimit ∧ event.byteSize < kDefaultTotalBytesLimit
      ∧ client.refuses event.byteSize = false) {loop : Loop P D}
    (hstream : (client.stream.add loop.taken).take (messages events).length = messages events)
    (hoffers : ∀ offer ∈ loop.offers, offer ≠ .error) :
    ∃ handled, EventRun events handled loop (messageLoop w client events.length loop) := by
  induction events generalizing loop with
  | nil => exact ⟨[], List.prefix_refl _, rfl, rfl, rfl, fun _ => rfl⟩
  | cons event events ih =>
      obtain ⟨⟨hfits, hsize, hrefuses⟩, hrestEvents⟩ := List.forall_mem_cons.mp hevents
      have hlength := length_messages_cons event events
      rw [hlength, Mem.take_add, messages_cons] at hstream
      obtain ⟨hfirst, hrest⟩ := List.append_inj hstream
        (by rw [Mem.length_take, List.length_append, length_littleEndian, event.length_serialize])
      rw [List.length_cons, messageLoop]
      rcases receiveMessage_event hw hparse hfits hsize hrefuses hfirst hoffers with ⟨hwaiting, hfew⟩ | ⟨m, next, hround, hr⟩
      · rw [hwaiting]
        refine ⟨[], List.nil_prefix, rfl, rfl, rfl, fun henough => absurd ⟨henough.1, ?_⟩ hfew⟩
        exact Nat.le_trans (by omega) henough.2
      · rw [hround]
        dsimp only
        have hnextStream : (client.stream.add next.taken).take (messages events).length = messages events := by
          rw [hr.taken, Nat.add_assoc, ← Mem.add_add]
          exact hrest
        obtain ⟨handled, hrun⟩ := ih hrestEvents hnextStream fun offer h => hoffers offer (hr.rest.subset h)
        refine ⟨event :: handled, ?_, ?_, ?_, ?_, fun henough => ?_⟩
        · exact (List.prefix_cons_inj event).mpr hrun.isPrefix
        · rw [List.map_cons, List.map_cons, hr.event_eq, hrun.event_eq]
        · rw [List.map_cons, List.map_cons, hr.parsed, hrun.parsed]
        · rw [hrun.sets, hr.radio, hr.sets, List.foldl_cons]
        · rw [hlength] at henough
          rw [hrun.all (hr.enough _ henough)]

/-- Two entries that come byte by byte. -/
theorem messageLoop_in_order_some :
    let entries : List EbNCore.Entry :=
      [{ linkValue := some [1, 2], mode := some .AdvertAndListen }, { linkValue := some [3], mode := some .Listen }]
    let event : EbNCore.Event := { linkabilityEvent := some { entries } }
    let client : Client := ⟨parse, fun size => 1000 < size, Mem.ofList (messages [event])⟩
    let loop : Loop LogRate Unit := ⟨.new ⟨.None, none⟩ .Standard 0, fun _ => 0, 0, List.replicate 30 (.bytes 1)⟩
    ∃ handled, EventRun [event] handled loop (messageLoop 64 client 1 loop) :=
  messageLoop_in_order (w := 64) (by decide) rfl
    (fun event hevent => by
      obtain rfl := List.mem_singleton.mp hevent
      refine ⟨?_, by decide, by decide⟩
      constructor <;> simp
      constructor <;> simp [EbNCore.Entry.Fits])
    (by rw [Mem.add_zero, Mem.take_ofList])
    (fun offer hoffer => by
      rw [List.eq_of_mem_replicate hoffer]
      exact Offer.noConfusion)

/-- Whatever bytes a client sends and however they arrive: a message never ends the loop by an invalid mode, and all that is
advertised after any run is listened for as well, if it was before. -/
theorem messageLoop_any_bytes {w : Nat} {client : Client} (hparse : client.parse = parse) (n : Nat) (loop : Loop P D)
    (hlistens : Listens loop.radio) :
    (∀ m ∈ (messageLoop w client n loop).1, m.event.Valid ∧ Listens m.after) ∧ Listens (messageLoop w client n loop).2
      ∧ ∀ m, receiveMessage w client loop ≠ .handled m none := by
  have hround : ∀ {loop : Loop P D} {m next}, receiveMessage w client loop = .handled m next → m.event.Valid ∧ next ≠ none := by
    intro loop m next h
    obtain ⟨⟨body, hbody⟩, hnone⟩ := receiveMessage_parses h
    obtain ⟨event, hevent⟩ : ∃ event, m.event = eventOf event := ⟨_, by rw [hbody, hparse, parse]⟩
    obtain ⟨after, hafter, -⟩ := handleEvent_eventOf loop.radio event
    refine ⟨hevent ▸ eventOf_valid event, fun h => ?_⟩
    have hfailed := hnone h
    rw [hevent, hafter] at hfailed
    cases hfailed
  refine and_assoc.mp ⟨?_, fun m h => (hround h).2 rfl⟩
  induction n generalizing loop with
  | zero => exact ⟨fun m hm => absurd hm List.not_mem_nil, hlistens⟩
  | succ n ih =>
      rw [messageLoop]
      split
      · next m next h =>
          have hr := receiveMessage_handled h
          have hafter : Listens m.after := hr.handled.listens (hr.before ▸ hlistens)
          obtain ⟨hall, hlast⟩ := ih next (hr.next next rfl ▸ hafter)
          exact ⟨List.forall_mem_cons.mpr ⟨⟨(hround h).1, hafter⟩, hall⟩, hlast⟩
      · next m h => exact absurd rfl (hround h).2
      · exact ⟨fun m hm => absurd hm List.not_mem_nil, hlistens⟩

/-- The start of a linkability event, and then nothing. -/
theorem messageLoop_any_bytes_some :
    let client : Client := ⟨parse, fun _ => false, Mem.ofList [1, 0, 0, 0, 0x0A]⟩
    let loop : Loop LogRate Unit := ⟨.new ⟨.None, none⟩ .Standard 0, fun _ => 0, 0, [.bytes 4, .error]⟩
    (∀ m ∈ (messageLoop 64 client 3 loop).1, m.event.Valid ∧ Listens m.after) ∧ Listens (messageLoop 64 client 3 loop).2
      ∧ ∀ m, receiveMessage 64 client loop ≠ .handled m none :=
  messageLoop_any_bytes rfl 3 _ (List.Sublist.refl _)

end Sddr.Sockets.Main
