import Sddr.Sockets.Lemmas.Main
import Sddr.Sockets.Messages

/-!
# Rounds of the message loop

Whatever was received and parsed, the sets become those of the event that was filled.
-/

namespace Sddr.Sockets.Main
open Sddr.Lib Sddr.Device Sddr.Radio

variable {P D : Type} {w : Nat} {client : Client}

/-! ## Events -/

theorem readEntries_valid {entries : List Entry}
    (h : ∀ entry ∈ entries, entry.mode = ModeType.AdvertAndListen ∨ entry.mode = ModeType.Listen)
    (advertisedSet listenSet : List LinkValue) :
    readEntries advertisedSet listenSet entries
      = some (advertisedSet ++ (entries.filter fun entry => entry.mode = ModeType.AdvertAndListen).map Entry.linkvalue,
          listenSet ++ entries.map Entry.linkvalue) := by
  induction entries generalizing advertisedSet listenSet with
  | nil => simp [readEntries]
  | cons entry entries ih =>
      have hrest := ih fun e he => h e (List.mem_cons_of_mem _ he)
      rw [readEntries]
      split_ifs with hadvert hlisten
      · simp [hrest, hadvert]
      · simp [hrest, hadvert]
      · rcases h entry List.mem_cons_self with hmode | hmode
        · exact absurd hmode hadvert
        · exact absurd hmode hlisten

theorem readEntries_invalid {entries : List Entry}
    (h : ¬ ∀ entry ∈ entries, entry.mode = ModeType.AdvertAndListen ∨ entry.mode = ModeType.Listen)
    (advertisedSet listenSet : List LinkValue) : readEntries advertisedSet listenSet entries = none := by
  induction entries generalizing advertisedSet listenSet with
  | nil => exact absurd (fun entry hentry => absurd hentry List.not_mem_nil) h
  | cons entry entries ih =>
      rw [List.forall_mem_cons, not_and_or] at h
      rw [readEntries]
      split_ifs with hadvert hlisten
      · exact ih (h.resolve_left (not_not.mpr (Or.inl hadvert))) _ _
      · exact ih (h.resolve_left (not_not.mpr (Or.inr hlisten))) _ _
      · rfl

/-- The sets after an event: its own if it has valid ones. -/
theorem radioSets_handleEvent (radio : EbNRadio P D) (event : Event) :
    radioSets ((handleEvent radio event).getD radio)
      = if event.hasLinkabilityEvent = true ∧ event.Valid then event.sets else radioSets radio := by
  unfold handleEvent
  by_cases hevent : event.hasLinkabilityEvent = true
  · rw [if_pos hevent]
    by_cases hvalid : event.Valid
    · rw [if_pos ⟨hevent, hvalid⟩, readEntries_valid hvalid]
      rfl
    · rw [if_neg fun h => hvalid h.2, readEntries_invalid hvalid]
      rfl
  · rw [if_neg hevent, if_neg fun h => hevent h.1]
    rfl

/-! ## Messages -/

namespace Message

variable {m : Message P D}

/-- What the loop makes of any message. -/
def Handled (m : Message P D) : Prop :=
  radioSets m.after = if m.event.hasLinkabilityEvent = true ∧ m.event.Valid then m.event.sets else radioSets m.before

theorem Handled.right_iff (h : m.Handled) : m.Right ↔ ¬ m.Slips := by
  unfold Handled at h
  constructor
  · rintro hright ⟨hbad, hevent, hvalid, hne⟩
    rw [if_pos ⟨hevent, hvalid⟩] at h
    exact hne (h.symm.trans (hright.bad hbad))
  · intro hslips
    constructor
    · intro hbad
      rw [h]
      split_ifs with hsets
      · by_contra hne
        exact hslips ⟨hbad, hsets.1, hsets.2, hne⟩
      · rfl
    · intro _ hevent hvalid
      rw [h, if_pos ⟨hevent, hvalid⟩]

theorem Handled.setsAfter (h : m.Handled) (hslips : ¬ m.Slips) : radioSets m.after = m.setsAfter (radioSets m.before) := by
  have hright := h.right_iff.mpr hslips
  unfold Message.setsAfter
  split_ifs with hgood
  · simp only [Bool.and_eq_true, decide_eq_true_iff] at hgood
    obtain ⟨⟨⟨hfull, hparsed⟩, hevent⟩, hvalid⟩ := hgood
    exact hright.good ⟨hfull, hparsed⟩ hevent hvalid
  · by_cases hbad : m.Good
    · unfold Handled at h
      rw [h, if_neg fun hsets => hgood ?_]
      simp only [Bool.and_eq_true, decide_eq_true_iff]
      exact ⟨⟨hbad, hsets.1⟩, hsets.2⟩
    · exact hright.bad hbad

end Message

/-! ## Rounds -/

/-- What is known of a round that handles a message. -/
structure Rounds (w : Nat) (client : Client) (loop : Loop P D) (m : Message P D) (next : Option (Loop P D)) : Prop where
  before : m.before = loop.radio
  handled : m.Handled
  next : ∀ l, next = some l → l.radio = m.after

theorem receiveBody_handled {loop : Loop P D} {header : Transferred Received} {m : Message P D}
    {next : Option (Loop P D)} (h : receiveBody w client loop header = .handled m next) :
    Rounds w client loop m next := by
  unfold receiveBody at h
  dsimp only at h
  split_ifs at h
  split at h
  · cases h
  · cases h
    refine ⟨rfl, radioSets_handleEvent loop.radio _, fun l hl => ?_⟩
    obtain ⟨radio, hradio, rfl⟩ := Option.map_eq_some_iff.mp hl
    dsimp only
    rw [hradio]
    rfl

theorem receiveMessage_handled {loop : Loop P D} {m : Message P D} {next : Option (Loop P D)}
    (h : receiveMessage w client loop = .handled m next) : Rounds w client loop m next := by
  unfold receiveMessage at h
  split at h
  · cases h
  · split_ifs at h
    exact receiveBody_handled h

/-- `recvAll` never fails. -/
theorem receiveMessage_ne_ended (loop : Loop P D) : receiveMessage w client loop ≠ .ended := by
  intro h
  unfold receiveMessage at h
  split at h
  · cases h
  · next header hheader =>
      rw [if_pos (transferAll_success _ _ _ hheader)] at h
      unfold receiveBody at h
      dsimp only at h
      split_ifs at h
      split at h
      · cases h
      · cases h

/-- When the client is gone, the loop waits for its next byte. -/
theorem receiveMessage_eof (n : Nat) {loop : Loop P D} (h : receiveMessage w client loop = .waiting) :
    receiveMessage w client { loop with offers := loop.offers ++ List.replicate n (.bytes 0) } = .waiting := by
  unfold receiveMessage at h ⊢
  split at h
  · next hheader =>
      rw [recvAll, transferAll_append_eof n _ _ _ hheader]
  · next header hheader =>
      rw [recvAll, transferAll_append _ _ _ _ hheader]
      split_ifs at h with hsuccess
      dsimp only
      rw [if_pos hsuccess]
      unfold receiveBody at h ⊢
      dsimp only at h ⊢
      split_ifs at h ⊢ with hrefused
      split at h
      · next hbody => rw [recvAll, transferAll_append_eof n _ _ _ hbody]
      · cases h

/-! ## The bytes of a message -/

theorem take_move (stream : Mem) (received : Received) (n : Nat) :
    ((receiving stream).move received 0 n).dest.take n = (stream.add received.taken).take n := by
  refine Mem.take_congr fun i hi => ?_
  change (received.dest.put 0 (stream.add received.taken) n) i = _
  rw [Mem.put_zero_pos, Mem.copy, if_pos hi]

theorem recvAll_moved {size : Nat} (hsize : size < 2 ^ w) {offers : List Offer} {received : Received}
    (hfull : ¬ FailsBefore (· = .error) size offers) {t : Transferred Received}
    (h : recvAll (BitVec.ofNat w size) client.stream offers received = some t) :
    t.moved.dest.take size = (client.stream.add received.taken).take size ∧ t.moved.taken = received.taken + size := by
  have hnat : (BitVec.ofNat w size).toNat = size := by rw [BitVec.toNat_ofNat, Nat.mod_eq_of_lt hsize]
  have hmoved := transferAll_moved offers (BitVec.le_def.mpr (Nat.zero_le _)) received (by rw [hnat]; exact hfull) h
  rw [hmoved, hnat]
  exact ⟨take_move client.stream received size, rfl⟩

/-! ## Runs -/

theorem messageLoop_handled (n : Nat) (loop : Loop P D) : ∀ m ∈ (messageLoop w client n loop).1, m.Handled := by
  induction n generalizing loop with
  | zero => exact fun m hm => absurd hm List.not_mem_nil
  | succ n ih =>
      rw [messageLoop]
      split
      · next message next hround =>
          intro m hm
          rcases List.mem_cons.mp hm with rfl | hrest
          · exact (receiveMessage_handled hround).handled
          · exact ih next m hrest
      · next message hround =>
          intro m hm
          obtain rfl := List.mem_singleton.mp hm
          exact (receiveMessage_handled hround).handled
      · exact fun m hm => absurd hm List.not_mem_nil

/-- When no message slips, the sets are those that the good messages lead to. -/
theorem messageLoop_sets (n : Nat) (loop : Loop P D) (h : ∀ m ∈ (messageLoop w client n loop).1, ¬ m.Slips) :
    radioSets (messageLoop w client n loop).2
      = (messageLoop w client n loop).1.foldl (fun sets m => m.setsAfter sets) (radioSets loop.radio) := by
  induction n generalizing loop with
  | zero => rfl
  | succ n ih =>
      rw [messageLoop] at h ⊢
      split at h
      · next message next hround =>
          have hr := receiveMessage_handled hround
          dsimp only at h ⊢
          rw [ih next fun m hm => h m (List.mem_cons_of_mem _ hm), List.foldl_cons, hr.next next rfl,
            hr.handled.setsAfter (h message List.mem_cons_self), hr.before]
      · next message hround =>
          have hr := receiveMessage_handled hround
          dsimp only at h ⊢
          rw [List.foldl_cons, List.foldl_nil, hr.handled.setsAfter (h message List.mem_cons_self), hr.before]
      · rfl

end Sddr.Sockets.Main
