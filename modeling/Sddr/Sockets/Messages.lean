import Sddr.Lib.Bytes
import Sddr.Radio.EbNRadio
import Sddr.Sockets.Main

/-!
# The message loop

The loop of `Main.cpp` over the messages of a client. A message is its size in four bytes and then its body.
-/

namespace Sddr.Sockets.Main
open Sddr.Lib Sddr.Device Sddr.Radio

/-! ## Events -/

/-- `Event_LinkabilityEvent_Entry_ModeType`. Its variables may hold other numbers. -/
abbrev ModeType := Int

namespace ModeType

def Listen : ModeType := 0
def AdvertAndListen : ModeType := 1

end ModeType

structure Entry where
  linkvalue : LinkValue
  mode : ModeType
  deriving DecidableEq

structure Event where
  hasLinkabilityEvent : Bool
  entries : List Entry
  deriving DecidableEq

/-- The loop over the entries, with the advertised set and the listen set. There is no result for an invalid mode. -/
def readEntries (advertisedSet listenSet : List LinkValue) : List Entry → Option (List LinkValue × List LinkValue)
  | [] => some (advertisedSet, listenSet)
  | entry :: entries =>
      if entry.mode = ModeType.AdvertAndListen then
        -- falls through to the next case
        readEntries (advertisedSet ++ [entry.linkvalue]) (listenSet ++ [entry.linkvalue]) entries
      else if entry.mode = ModeType.Listen then readEntries advertisedSet (listenSet ++ [entry.linkvalue]) entries
      else none

variable {P D : Type}

/-- What the loop does with the event of a message. -/
def handleEvent (radio : EbNRadio P D) (event : Event) : Option (EbNRadio P D) :=
  if event.hasLinkabilityEvent then
    (readEntries [] [] event.entries).map fun (advertisedSet, listenSet) =>
      (radio.setAdvertisedSet advertisedSet).setListenSet listenSet
  else some radio

/-! ## The loop -/

/-- The radio of the controller, `messageSizeBytes`, the bytes taken from the stream, and what the socket lets through
from now on. -/
structure Loop (P D : Type) where
  radio : EbNRadio P D
  messageSizeBytes : Mem
  taken : Nat
  offers : List Offer

/-- A message that was handled: whether no error came before its end, what `ParseFromCodedStream` returned and the event
it filled, and the radio before and after. -/
structure Message (P D : Type) where
  full : Bool
  parsed : Bool
  event : Event
  before : EbNRadio P D
  after : EbNRadio P D

/-- What a round of the loop leads to. The loop goes on after a message unless a mode was invalid. -/
inductive Step (P D : Type) where
  | waiting
  | ended
  | threw
  | handled (message : Message P D) (next : Option (Loop P D))

/-- `ParseFromCodedStream` is a parameter, and so is whether there is no memory for a message. The stream is what the
client sends. -/
structure Client where
  parse : List Byte → Bool × Event
  refuses : Nat → Bool
  stream : Mem

variable (w : Nat) (client : Client)

/-- The body of the loop, with the bytes of `messageSizeBytes` received. The results of `recvAll` and of
`ParseFromCodedStream` are not looked at. -/
def receiveBody (loop : Loop P D) (header : Transferred Received) : Step P D :=
  let messageSize := ofLittleEndian (header.moved.dest.take 4)
  if client.refuses messageSize then .threw
  else
    match recvAll (BitVec.ofNat w messageSize) client.stream header.rest ⟨header.moved.taken, fun _ => 0⟩ with
    | none => .waiting
    | some body =>
        let parsed := client.parse (body.moved.dest.take messageSize)
        let full := ¬ FailsBefore (· = .error) 4 loop.offers ∧ ¬ FailsBefore (· = .error) messageSize header.rest
        let after := handleEvent loop.radio parsed.2
        .handled ⟨decide full, parsed.1, parsed.2, loop.radio, after.getD loop.radio⟩
          (after.map fun radio => ⟨radio, header.moved.dest, body.moved.taken, body.rest⟩)

/-- A round of the loop. -/
def receiveMessage (loop : Loop P D) : Step P D :=
  match recvAll (BitVec.ofNat w 4) client.stream loop.offers ⟨loop.taken, loop.messageSizeBytes⟩ with
  | none => .waiting
  | some header => if header.success then receiveBody w client loop header else .ended

/-- The messages handled in at most `n` rounds, and the radio then. -/
def messageLoop : Nat → Loop P D → List (Message P D) × EbNRadio P D
  | 0, loop => ([], loop.radio)
  | n + 1, loop =>
      match receiveMessage w client loop with
      | .handled message (some next) =>
          let rest := messageLoop n next
          (message :: rest.1, rest.2)
      | .handled message none => ([message], message.after)
      | _ => ([], loop.radio)

/-! ## What a message should do -/

/-- The modes of all entries are valid. -/
def Event.Valid (event : Event) : Prop :=
  ∀ entry ∈ event.entries, entry.mode = ModeType.AdvertAndListen ∨ entry.mode = ModeType.Listen

instance (event : Event) : Decidable event.Valid := inferInstanceAs (Decidable (∀ _ ∈ _, _))

/-- The link values that are advertised and listened for. -/
def Event.sets (event : Event) : List LinkValue × List LinkValue :=
  ((event.entries.filter fun entry => entry.mode = ModeType.AdvertAndListen).map Entry.linkvalue,
    event.entries.map Entry.linkvalue)

def radioSets (radio : EbNRadio P D) : List LinkValue × List LinkValue := (radio.advertisedSet, radio.listenSet)

namespace Message

variable (m : Message P D)

/-- Received in full and parsed. -/
def Good : Prop := m.full = true ∧ m.parsed = true

/-- A bad message changes nothing, and a good one with valid modes sets its sets. -/
structure Right : Prop where
  bad : ¬ m.Good → radioSets m.after = radioSets m.before
  good : m.Good → m.event.hasLinkabilityEvent = true → m.event.Valid → radioSets m.after = m.event.sets

/-- A bad message was filled with a linkability event of valid modes, and with other sets than there are. -/
structure Slips : Prop where
  bad : ¬ m.Good
  hasLinkabilityEvent : m.event.hasLinkabilityEvent = true
  valid : m.event.Valid
  sets_ne : m.event.sets ≠ radioSets m.before

/-- The sets that a message leads to. -/
def setsAfter (sets : List LinkValue × List LinkValue) : List LinkValue × List LinkValue :=
  if m.full && m.parsed && m.event.hasLinkabilityEvent && decide m.event.Valid then m.event.sets else sets

end Message

end Sddr.Sockets.Main
