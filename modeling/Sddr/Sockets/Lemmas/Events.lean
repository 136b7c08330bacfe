import Sddr.Sockets.Events
import Sddr.Sockets.Lemmas.Messages
import Sddr.Wire.Lemmas.EbNCore

/-!
# Messages of events
-/

namespace Sddr.Sockets.Main
open Sddr.Lib Sddr.Wire Sddr.Radio

/-! ## Sending -/

theorem message_eq (event : EbNCore.Event) :
    message event = some (littleEndian 4 event.byteSize ++ event.serialize) := by
  have hsize := event.length_serialize
  rw [message, Output.writeRaw, if_pos (by rw [length_littleEndian]; exact Nat.le_add_right _ _), Option.bind_some]
  simp only [Output.serialize, length_littleEndian, Nat.add_sub_cancel_left, List.nil_append, hsize, Nat.le_refl, if_true,
    Nat.sub_self, List.replicate_zero, List.append_nil, Option.map_some]

/-! ## Parsing -/

theorem parse_serialize {event : EbNCore.Event} (hfits : event.Fits EbNCore.recursionLimit)
    (h : event.byteSize < kDefaultTotalBytesLimit) : parse event.serialize = (event.isInitialized, eventOf event) := by
  rw [parse, EbNCore.Event.parseFromCodedStream_serialize hfits (Nat.lt_trans h (by decide))]

/-- An event that is put together has no unknown fields. -/
theorem fullEvent_fits {P : Type} (sddrStartTimestamp : BitVec 64) (event : Device.EncounterEvent P) :
    (fullEvent sddrStartTimestamp event).Fits EbNCore.recursionLimit := by
  constructor <;> simp [fullEvent]
  constructor <;> simp [EbNCore.RSSIEvent.Fits]

/-- Whatever the bytes were, the modes of the entries are valid. -/
theorem eventOf_valid (event : EbNCore.Event) : (eventOf event).Valid := by
  intro entry hentry
  obtain ⟨entry', -, rfl⟩ := List.mem_map.mp hentry
  rw [entryOf]
  cases entry'.mode.getD .Listen with
  | Listen => exact Or.inr rfl
  | AdvertAndListen => exact Or.inl rfl

variable {P D : Type}

theorem handleEvent_eventOf (radio : EbNRadio P D) (event : EbNCore.Event) :
    ∃ after, handleEvent radio (eventOf event) = some after ∧ radioSets after = setsOf (radioSets radio) event := by
  have hvalid := eventOf_valid event
  have hsets := radioSets_handleEvent radio (eventOf event)
  obtain ⟨after, hafter⟩ : ∃ after, handleEvent radio (eventOf event) = some after := by
    rw [handleEvent, readEntries_valid hvalid]
    split_ifs
    · exact ⟨_, rfl⟩
    · exact ⟨_, rfl⟩
  refine ⟨after, hafter, ?_⟩
  rw [hafter, Option.getD_some] at hsets
  rw [hsets, setsOf, eventOf]
  exact if_congr (and_iff_left hvalid) rfl rfl

/-! ## Offers -/

section Offers

variable {σ : Type} {w : Nat} {mover : Mover σ} {size : BitVec w}

theorem not_failsBefore {offers : List Offer} (h : ∀ offer ∈ offers, offer ≠ .error) (n : Nat) :
    ¬ FailsBefore (· = .error) n offers := by
  rintro ⟨before, offer, after, rfl, herror, -⟩
  exact h offer (by simp) herror

theorem transferAll_suffix (offers : List Offer) (pos : BitVec w) (moved : σ) {t : Transferred σ}
    (h : transferAll mover size offers pos moved = some t) : t.rest <:+ offers := by
  induction offers generalizing pos moved with
  | nil =>
      rw [transferAll] at h
      split_ifs at h
      cases h
      exact List.suffix_refl _
  | cons offer offers ih =>
      by_cases hmore : pos < size
      · rw [transferAll_cons hmore] at h
        exact (ih _ _ h).trans (List.suffix_cons offer offers)
      · rw [transferAll, if_neg hmore] at h
        cases h
        exact List.suffix_refl _

theorem transferAll_enough (offers : List Offer) {pos : BitVec w} (hpos : pos ≤ size) (moved : σ)
    (henough : Enough offers (size.toNat - pos.toNat)) :
    ∃ t, transferAll mover size offers pos moved = some t ∧ offers.length ≤ t.rest.length + (size.toNat - pos.toNat) := by
  obtain ⟨hoffers, hlength⟩ := henough
  induction offers generalizing pos moved with
  | nil =>
      have hdone : ¬ pos < size := by
        rw [BitVec.lt_def]
        rw [List.length_nil] at hlength
        omega
      exact ⟨_, by rw [transferAll, if_neg hdone], Nat.zero_le _⟩
  | cons offer offers ih =>
      by_cases hmore : pos < size
      · have hlt : pos.toNat < size.toNat := hmore
        have hamount := hoffers offer List.mem_cons_self
        have hoffer : offer ≠ .error := fun heq => by
          rw [heq] at hamount
          exact Nat.lt_irrefl 0 hamount
        have hnext := toNat_add_result hmore hoffer
        rw [List.length_cons] at hlength ⊢
        rw [transferAll_cons hmore]
        obtain ⟨t, ht, hrest⟩ := @ih (pos + BitVec.ofInt w (offer.result (size - pos).toNat))
          (BitVec.le_def.mpr (by omega)) (mover.move moved pos.toNat (offer.result (size - pos).toNat).toNat)
          (fun o ho => hoffers o (List.mem_cons_of_mem _ ho)) (by omega)
        exact ⟨t, ht, by omega⟩
      · exact ⟨_, by rw [transferAll, if_neg hmore], Nat.le_add_right _ _⟩

/-- When there are enough calls, nothing waits, and there are enough left. -/
theorem recvAll_enough {size : Nat} (hsize : size < 2 ^ w) {stream : Mem} {offers : List Offer} {received : Received} :
    (recvAll (BitVec.ofNat w size) stream offers received = none → ¬ Enough offers size)
      ∧ ∀ t, recvAll (BitVec.ofNat w size) stream offers received = some t → ∀ k, Enough offers (size + k) → Enough t.rest k := by
  have hnat : (BitVec.ofNat w size).toNat - (0 : BitVec w).toNat = size := by
    rw [BitVec.toNat_ofNat, Nat.mod_eq_of_lt hsize]
    simp
  have hzero : (0 : BitVec w) ≤ BitVec.ofNat w size := BitVec.le_def.mpr (Nat.zero_le _)
  have hall := @transferAll_enough _ w (receiving stream) _ offers _ hzero received
  rw [hnat] at hall
  refine ⟨fun hnone henough => ?_, fun t ht k henough => ?_⟩
  · obtain ⟨t, ht, -⟩ := hall henough
    rw [recvAll, ht] at hnone
    cases hnone
  · obtain ⟨t', ht', hlength⟩ := hall ⟨henough.1, Nat.le_trans (Nat.le_add_right size k) henough.2⟩
    rw [recvAll, ht'] at ht
    cases ht
    have hoffers := henough.2
    exact ⟨fun offer h => henough.1 offer ((transferAll_suffix _ _ _ ht').subset h), by omega⟩

end Offers

/-! ## Rounds -/

variable {w : Nat} {client : Client}

/-- A round for an event that comes next. -/
structure EventRound (client : Client) (loop : Loop P D) (event : EbNCore.Event) (m : Message P D) (next : Loop P D) : Prop where
  event_eq : m.event = eventOf event
  parsed : m.parsed = event.isInitialized
  radio : next.radio = m.after
  sets : radioSets m.after = setsOf (radioSets loop.radio) event
  taken : next.taken = loop.taken + 4 + event.byteSize
  rest : next.offers <:+ loop.offers
  enough : ∀ k, Enough loop.offers (4 + event.byteSize + k) → Enough next.offers k

theorem receiveMessage_event (hw : 32 ≤ w) (hparse : client.parse = parse) {loop : Loop P D} {event : EbNCore.Event}
    (hfits : event.Fits EbNCore.recursionLimit) (hlimit : event.byteSize < kDefaultTotalBytesLimit)
    (hrefuses : client.refuses event.byteSize = false)
    (hstream : (client.stream.add loop.taken).take (4 + event.byteSize) = littleEndian 4 event.byteSize ++ event.serialize)
    (hoffers : ∀ offer ∈ loop.offers, offer ≠ .error) :
    (receiveMessage w client loop = .waiting ∧ ¬ Enough loop.offers (4 + event.byteSize))
      ∨ ∃ m next, receiveMessage w client loop = .handled m (some next) ∧ EventRound client loop event m next := by
  have hw32 : 2 ^ 32 ≤ 2 ^ w := Nat.pow_le_pow_right (Nat.succ_pos 1) hw
  have hsize : event.byteSize < 2 ^ 31 := Nat.lt_trans hlimit (by decide)
  rw [Mem.take_add] at hstream
  obtain ⟨hheaderBytes, hbodyBytes⟩ := List.append_inj hstream (by rw [Mem.length_take, length_littleEndian])
  unfold receiveMessage
  cases hheader : recvAll (BitVec.ofNat w 4) client.stream loop.offers ⟨loop.taken, loop.messageSizeBytes⟩ with
  | none =>
      have hfew := (recvAll_enough (by omega)).1 hheader
      exact Or.inl ⟨rfl, fun henough => hfew ⟨henough.1, Nat.le_trans (Nat.le_add_right 4 _) henough.2⟩⟩
  | some header =>
      have henough := (recvAll_enough (by omega)).2 header hheader
      obtain ⟨hmoved, htaken⟩ := recvAll_moved (by omega) (not_failsBefore hoffers 4) hheader
      have hrest := transferAll_suffix _ _ _ hheader
      have hmessageSize : ofLittleEndian (header.moved.dest.take 4) = event.byteSize := by
        rw [hmoved, hheaderBytes, ofLittleEndian_littleEndian (by omega)]
      dsimp only
      rw [if_pos (transferAll_success _ _ _ hheader), receiveBody, hmessageSize]
      dsimp only
      rw [hrefuses]
      cases hbody : recvAll (BitVec.ofNat w event.byteSize) client.stream header.rest ⟨header.moved.taken, fun _ => 0⟩ with
      | none =>
          have hfew := (recvAll_enough (by omega)).1 hbody
          exact Or.inl ⟨rfl, fun hall => hfew (henough _ hall)⟩
      | some body =>
          have hbodyEnough := (recvAll_enough (by omega)).2 body hbody
          have hbodyOffers : ∀ offer ∈ header.rest, offer ≠ .error := fun offer h => hoffers offer (hrest.subset h)
          obtain ⟨hbodyMoved, hbodyTaken⟩ := recvAll_moved (by omega) (not_failsBefore hbodyOffers _) hbody
          dsimp only at hbodyMoved hbodyTaken htaken
          have hparsed : client.parse (body.moved.dest.take event.byteSize) = (event.isInitialized, eventOf event) := by
            rw [hbodyMoved, htaken, ← Mem.add_add, hbodyBytes, hparse, parse_serialize hfits hlimit]
          obtain ⟨after, hafter, hsets⟩ := handleEvent_eventOf loop.radio event
          dsimp only
          rw [hparsed, hafter]
          refine Or.inr ⟨_, _, rfl, ⟨rfl, rfl, rfl, hsets, ?_, ?_, fun k hall => ?_⟩⟩
          · rw [hbodyTaken, htaken]
          · exact (transferAll_suffix _ _ _ hbody).trans hrest
          · rw [Nat.add_assoc] at hall
            exact hbodyEnough k (henough _ hall)

/-! ## Runs -/

theorem messages_cons (event : EbNCore.Event) (events : List EbNCore.Event) :
    messages (event :: events) = littleEndian 4 event.byteSize ++ event.serialize ++ messages events := rfl

theorem length_messages_cons (event : EbNCore.Event) (events : List EbNCore.Event) :
    (messages (event :: events)).length = 4 + event.byteSize + (messages events).length := by
  rw [messages_cons, List.length_append, List.length_append, length_littleEndian, event.length_serialize]

/-- What was handled of the events of a stream. -/
structure EventRun (events handled : List EbNCore.Event) (loop : Loop P D) (run : List (Message P D) × EbNRadio P D) : Prop where
  isPrefix : handled <+: events
  event_eq : run.1.map Message.event = handled.map eventOf
  parsed : run.1.map Message.parsed = handled.map EbNCore.Event.isInitialized
  sets : radioSets run.2 = handled.foldl setsOf (radioSets loop.radio)
  all : Enough loop.offers (messages events).length → handled = events

/-! ## Any bytes -/

/-- The event of a message was parsed from some bytes, and the loop goes on behind it unless the event was not handled. -/
theorem receiveMessage_parses {loop : Loop P D} {m : Message P D} {next : Option (Loop P D)}
    (h : receiveMessage w client loop = .handled m next) :
    (∃ body, m.event = (client.parse body).2) ∧ (next = none → handleEvent loop.radio m.event = none) := by
  unfold receiveMessage at h
  split at h
  · cases h
  · split_ifs at h
    unfold receiveBody at h
    dsimp only at h
    split_ifs at h
    split at h
    · cases h
    · cases h
      exact ⟨⟨_, rfl⟩, Option.map_eq_none_iff.mp⟩

theorem listens_of_radioSets {radio radio' : EbNRadio P D} (h : radioSets radio' = radioSets radio) (hl : Listens radio) :
    Listens radio' := by
  obtain ⟨hadvertised, hlisten⟩ := Prod.mk.inj h
  rw [Listens, hadvertised, hlisten]
  exact hl

theorem listens_of_sets {radio : EbNRadio P D} {event : Event} (h : radioSets radio = event.sets) : Listens radio := by
  obtain ⟨hadvertised, hlisten⟩ := Prod.mk.inj h
  rw [Listens, hadvertised, hlisten]
  exact List.filter_sublist.map _

theorem Message.Handled.listens {m : Message P D} (h : m.Handled) (hl : Listens m.before) : Listens m.after := by
  unfold Handled at h
  split_ifs at h with hevent
  · exact listens_of_sets h
  · exact listens_of_radioSets h hl

end Sddr.Sockets.Main
