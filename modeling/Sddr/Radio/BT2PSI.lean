import Sddr.Codec.PSIMessage
import Sddr.Lib.Session
import Sddr.Radio.ECDH

/-!
# EbNRadioBT2PSI

The session of `EbNRadioBT2PSI.cpp`: `handshake` after a successful connect, and one accepted connection in `listen`. What
the key exchange and the private set intersection compute for their own side does not reach the connection and is left
out.
-/

namespace Sddr.Radio
open Sddr.Lib Sddr.Codec Sddr.Device

namespace BT2PSI

/-- The outputs of a client and a server of the PSI library. The first argument is the data it has loaded. -/
structure PSILibrary where
  publishData : List Str → List Str
  request : List Str → List Str → List Str
  response : List Str → List Str → List Str

structure Party (ec : Ec) where
  dhExchange : ECDH ec
  advertisedSet : List LinkValue
  listenSet : List LinkValue
  psi : PSILibrary

/-- The steps of a session, under the names the log gives them; `dh` is the exchange of the public keys. -/
inductive Phase where
  | dh | HC1 | HC2 | HS1 | HS2 | LS1 | LS2 | LC1 | LC2
  deriving DecidableEq, Repr

/-- The step of the peer whose message a step receives. -/
def Phase.sender : Phase → Phase
  | dh => dh
  | HC1 => LS1
  | HC2 => LS2
  | HS2 => LC1
  | LS2 => HC1
  | LC1 => HS1
  | LC2 => HS2
  | HS1 => HS1
  | LS1 => LS1

/-- What a session notes: the lists its PSI server or client produced and those it parsed, and whole messages. -/
inductive Event where
  | produced (phase : Phase) (output : List Str)
  | sent (phase : Phase) (message : List Byte)
  | received (phase : Phase) (message : List Byte)
  | parsed (phase : Phase) (input : List Str)
  deriving DecidableEq

/-- The variables `success` and `message` of a session. -/
structure Session where
  success : Bool
  message : List Byte

/-! ## The connection -/

def send (message : List Byte) : Proc Byte Event Bool := .send message fun success => .done success

def recv (size : Nat) : Proc Byte Event (Bool × List Byte) := .recv [] size fun success message => .done (success, message)

def note (event : Event) : Proc Byte Event Unit := .note event (.done ())

namespace Party

variable {ec : Ec} (p : Party ec)

/-- The public key, `getPublicSize` bytes from `getPublic` on. -/
def publicBytes : List Byte := p.dhExchange.getPublic.take p.dhExchange.getPublicSize

/-- `setAdvertisedSet`. -/
def psiServerData : List Str := p.advertisedSet.map fun value => value.take (ec.keySize / 8)

/-- `setListenSet`. -/
def psiClientData : List Str := p.listenSet.map fun value => value.take (ec.keySize / 8)

def publishData : List Str := p.psi.publishData p.psiServerData

def request (published : List Str) : List Str := p.psi.request p.psiClientData published

def response (input : List Str) : List Str := p.psi.response p.psiServerData input

/-- Exchanging the public keys: the sending. -/
def sendPublic (s : Session) : Proc Byte Event Session :=
  if s.success then do
    note (.sent .dh p.publicBytes)
    let success ← send p.publicBytes
    return { s with success := success }
  else return s

/-- Exchanging the public keys: the receiving. -/
def recvPublic (s : Session) : Proc Byte Event Session :=
  if s.success then do
    let (success, remotePublic) ← recv p.dhExchange.getPublicSize
    if success then
      note (.received .dh remotePublic)
      return { s with success := success }
    else return { s with success := success }
  else return s

end Party

/-- `constructPSIMessage(message, output)` and the sending of the message. -/
def sendMessage (phase : Phase) (output : List Str) (s : Session) : Proc Byte Event Session :=
  match constructPSIMessage s.message output with
  | none => .crash
  | some message => do
      note (.produced phase output)
      note (.sent phase message)
      let success ← send message
      return ⟨success, message⟩

/-- The receiving of a message, in two reads, and what is done with the list that is parsed from it. -/
def recvMessage (phase : Phase) (body : List Str → Session → Proc Byte Event Session) (s : Session) :
    Proc Byte Event Session :=
  if s.success then do
    let (success, messageSize) ← recv 4
    if success then
      let (success, message) ← recv (ofLittleEndian messageSize)
      if success then
        note (.received phase (messageSize ++ message))
        match parsePSIMessage message with
        | none => .crash
        | some input => do
            note (.parsed phase input)
            body input ⟨success, message⟩
      else return ⟨success, message⟩
    else return { s with success := success }
  else return s

namespace Party

variable {ec : Ec} (p : Party ec)

/-- The session of `handshake`, up to `waitClose`. -/
def handshake : Proc Byte Event Session := do
  let s ← p.sendPublic ⟨true, []⟩
  let s ← p.recvPublic s
  -- act as client first
  let s ← recvMessage .HC1 (fun publishedData s => sendMessage .HC1 (p.request publishedData) s) s
  let s ← recvMessage .HC2 (fun _ s => return s) s
  -- act as server second
  let s ← if s.success then sendMessage .HS1 p.publishData s else return s
  recvMessage .HS2 (fun input s => sendMessage .HS2 (p.response input) s) s

/-- The session of one connection that `listen` has accepted. -/
def listen : Proc Byte Event Session := do
  let s ← p.sendPublic ⟨true, []⟩
  let s ← p.recvPublic s
  -- act as server first
  let s ← if s.success then sendMessage .LS1 p.publishData s else return s
  let s ← recvMessage .LS2 (fun input s => sendMessage .LS2 (p.response input) s) s
  -- act as client second
  let s ← recvMessage .LC1 (fun publishedData s => sendMessage .LC1 (p.request publishedData) s) s
  recvMessage .LC2 (fun _ s => return s) s

end Party

/-- The lists that two parties send each other are below the size of a message. -/
structure Framed {ec : Ec} (initiator responder : Party ec) : Prop where
  published : framedSize responder.publishData < 2 ^ 32
  request : framedSize (initiator.request responder.publishData) < 2 ^ 32
  response : framedSize (responder.response (initiator.request responder.publishData)) < 2 ^ 32
  published' : framedSize initiator.publishData < 2 ^ 32
  request' : framedSize (responder.request initiator.publishData) < 2 ^ 32
  response' : framedSize (initiator.response (responder.request initiator.publishData)) < 2 ^ 32

/-- Each of the receives that `log` notes is the message that the step of the peer sends, and each of the lists it has
parsed is the one that the peer produced for that step. -/
structure Matches (log peer : List Event) : Prop where
  received : ∀ phase message, .received phase message ∈ log → .sent phase.sender message ∈ peer
  parsed : ∀ phase input, .parsed phase input ∈ log → .produced phase.sender input ∈ peer

/-- Both ends have been reached with `success` still true, and both streams are empty. -/
structure Finished (c : Net Byte Event Session Session) : Prop where
  left : ∃ message, c.left = .done ⟨true, message⟩
  right : ∃ message, c.right = .done ⟨true, message⟩
  toLeft : c.toLeft = []
  toRight : c.toRight = []

end BT2PSI

end Sddr.Radio
