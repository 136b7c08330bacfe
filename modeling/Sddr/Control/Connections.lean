import Sddr.Control.EbNControllerBT4
import Sddr.Lib.Runs

/-!
# Connections between BT4 radios

The initiator of a connection is in `handshake`. The responder serves it in its listener thread, next to its own actions.
`EbNRadioBT4.listen` is such a connection all at once.
-/

namespace Sddr.Radio
open Sddr.Lib Sddr.Codec Sddr.Device Sddr.Erasure

instance {ec : Ec} [DecidableEq ec.Key] : DecidableEq (ECDH ec) := fun dh dh' =>
  decidable_of_iff (dh.secret = dh'.secret ∧ dh.localPublic = dh'.localPublic) (by cases dh; cases dh'; simp)

namespace EbNRadioBT4

variable {P : Type} [FloatOps P] {ec : Ec} (sha256 : List Byte → Digest) (r : EbNRadioBT4 P ec)

/-- The secret that `processActiveHandshake` adds: the one a device has then, if it had none before. -/
def addedSecret (message : List Byte) : Option LinkValue :=
  ((r.processActiveHandshake sha256 message (EbNDevice.new 0 [] [])).sharedSecrets.map SharedSecret.value).head?

/-- The device that `handshake` connects to for an id, if it does. -/
def candidate (id : DeviceID) : Option DeviceID :=
  (r.devices.getID id).filter fun device =>
    (r.heap device).any fun d => Version.Bluetooth4.connects (IsDevice.base d).confirmed r.getHandshakeScheme

/-- The end of the loop over `deviceIDs`, with the answer of the device. -/
def shake (device : DeviceID) (answer : Option (List Byte)) : EbNRadioBT4 P ec :=
  { r with
    toEbNRadio := r.update device fun d => IsDevice.update (·.setShakenHands true) ((r.connectEffect sha256 answer).run d) }

end EbNRadioBT4

end Sddr.Radio

namespace Sddr.Control
open Sddr.Lib Sddr.Codec Sddr.Device Sddr.Radio Sddr.Erasure

/-! ## Connections -/

/-- Where the initiator is. -/
inductive Client where
  | sending (localMessage : List Byte)
  | receiving
  | closed
  deriving DecidableEq

/-- Where the listener thread is, and then where the message is in `listenAdverts_`. -/
inductive Server where
  | waiting
  | receiving (localMessage : List Byte)
  | sending (localMessage remoteMessage : List Byte)
  | queueing (remoteMessage : List Byte)
  | queued (index : Nat)
  | drained
  | closed
  deriving DecidableEq

namespace Server

/-- The listener thread serves one connection at a time. -/
def serving : Server → Bool
  | receiving _ | sending _ _ | queueing _ => true
  | waiting | queued _ | drained | closed => false

def isQueued : Server → Bool
  | queued _ => true
  | _ => false

end Server

/-- `dhExchange` and `dhExchangeCopy` are the keys that the messages of the two sides are generated from, `toServer` and
`toClient` the messages that were sent and not yet received, and the secrets those that the two sides have added. -/
structure Connection (N : Type) (ec : Ec) where
  initiator : N
  responder : N
  device : DeviceID
  clientAddress : Address
  dhExchange : ECDH ec
  dhExchangeCopy : Option (ECDH ec)
  client : Client
  server : Server
  toServer : Option (List Byte)
  toClient : Option (List Byte)
  initiatorSecret : Option LinkValue
  responderSecret : Option LinkValue

namespace Connection

variable {N P : Type} [FloatOps P] {ec : Ec} (sha256 : List Byte → Digest) (r : EbNRadioBT4 P ec)

/-- The initiator closes the connection. An answer of zeros is ignored. -/
def close (c : Connection N ec) (answer : Option (List Byte)) : Connection N ec :=
  { c with
    client := .closed
    toClient := none
    initiatorSecret := (answer.filter fun message => message.any (· ≠ 0)).bind fun message => r.addedSecret sha256 message }

/-- The next step of `handshake`, with the radio after it. `send` and `recv` may fail. -/
def clientStep (success : Bool) (c : Connection N ec) : Option (EbNRadioBT4 P ec × Connection N ec) :=
  match c.client, success with
  | .sending localMessage, true => some (r, { c with client := .receiving, toServer := some localMessage })
  | .receiving, true =>
      c.toClient.map fun remoteMessage =>
        (r.shake sha256 c.device (some remoteMessage), c.close sha256 r (some remoteMessage))
  | .sending _, false | .receiving, false => some (r.shake sha256 c.device none, c.close sha256 r none)
  | .closed, _ => none

/-- The next step of `listen`, with the radio after it. The thread runs if `type & Active`. -/
def serverStep (rand : Nat → Nat) (success : Bool) (c : Connection N ec) :
    Option (EbNRadioBT4 P ec × Connection N ec) :=
  match c.server, success with
  | .waiting, _ =>
      -- nothing is shared between `acceptBT4` and the copy
      if r.confirmScheme.type.hasActive then
        some (r,
          if c.clientAddress.verifyChecksum then
            { c with
              dhExchangeCopy := some r.dhExchange
              server := .receiving (r.generateActiveHandshake sha256 rand r.dhExchange) }
          else { c with server := .closed })
      else none
  | .receiving localMessage, true =>
      c.toServer.map fun remoteMessage =>
        (r, { c with
          toServer := none
          server := if remoteMessage.any (· ≠ 0) then .sending localMessage remoteMessage else .closed })
  | .sending localMessage remoteMessage, true =>
      some (r, { c with toClient := some localMessage, server := .queueing remoteMessage })
  | .receiving _, false | .sending _ _, false => some (r, { c with server := .closed })
  | .queueing remoteMessage, _ =>
      some ({ r with listenAdverts := r.listenAdverts ++ [(c.clientAddress, remoteMessage)] },
        { c with server := .queued r.listenAdverts.length })
  | .queued _, _ | .drained, _ | .closed, _ => none

/-- What the loop over `listenAdverts_` does for a connection. -/
def drain (c : Connection N ec) : Connection N ec :=
  match c.server with
  | .queued index =>
      { c with
        server := .drained
        responderSecret := r.listenAdverts[index]?.bind fun queued => r.addedSecret sha256 queued.2 }
  | _ => c

/-- The ECDH value of the keys of the two messages. -/
def exchanged (c : Connection N ec) : Option LinkValue :=
  c.dhExchangeCopy.bind fun dhExchangeCopy => ec.computeKey (ec.publicKey c.dhExchange.secret) dhExchangeCopy.secret

/-- The responder adds a secret when it drains the message. It is the value of the keys that were exchanged, as is that
of the initiator, if it has added one. -/
def Agrees (c : Connection N ec) : Prop :=
  (c.server = .drained → c.responderSecret.isSome) ∧
    ∀ v ∈ c.responderSecret, c.exchanged = some v ∧ ∀ w ∈ c.initiatorSecret, w = v

end Connection

/-! ## Networks -/

structure Network (N P : Type) (ec : Ec) where
  radio : N → EbNRadioBT4 P ec
  connections : List (Connection N ec)

/-- What the parties of a network do; `other` is whatever else happens to a radio. -/
inductive NetworkEvent (N P : Type) (ec : Ec) where
  | connect (initiator responder : N) (id : DeviceID) (rand : Nat → Nat)
  | client (index : Nat) (success : Bool)
  | server (index : Nat) (rand : Nat → Nat) (success : Bool)
  | drain (party : N) (buckets : Nat → Buckets)
  | changeEpoch (party : N) (key : ec.Key) (randomAddress : Address)
  | other (party : N) (change : EbNRadioBT4 P ec → EbNRadioBT4 P ec)

namespace Network

variable {N P : Type} [DecidableEq N] [FloatOps P] {ec : Ec} (sha256 : List Byte → Digest) (g : Galois)
  (digest : List Byte → Nat) (n : Network N P ec)

/-- The thread of the actions is in a connection. -/
def handshaking (party : N) : Bool := n.connections.any fun c => c.initiator = party && c.client ≠ .closed

/-- The listener thread is in a connection. -/
def listening (party : N) : Bool := n.connections.any fun c => c.responder = party && c.server.serving

def setRadio (party : N) (r : EbNRadioBT4 P ec) : Network N P ec := { n with radio := Function.update n.radio party r }

def setConnection (index : Nat) (c : Connection N ec) : Network N P ec :=
  { n with connections := n.connections.set index c }

def act : NetworkEvent N P ec → Option (Network N P ec)
  | .connect initiator responder id rand =>
      let r := n.radio initiator
      if n.handshaking initiator then none
      else
        (r.candidate id).map fun device =>
          { n with
            connections := n.connections ++
              [⟨initiator, responder, device, r.randomAddress, r.dhExchange, none,
                .sending (r.generateActiveHandshake sha256 rand r.dhExchange), .waiting, none, none, none, none⟩] }
  | .client index success =>
      n.connections[index]?.bind fun c =>
        (c.clientStep sha256 (n.radio c.initiator) success).map fun (r, c') =>
          (n.setRadio c.initiator r).setConnection index c'
  | .server index rand success =>
      n.connections[index]?.bind fun c =>
        if c.server = .waiting ∧ n.listening c.responder then none
        else
          (c.serverStep sha256 (n.radio c.responder) rand success).map fun (r, c') =>
            (n.setRadio c.responder r).setConnection index c'
  | .drain party buckets =>
      let r := n.radio party
      let incoming : List (Incoming sha256 (EbNDeviceBT4 P ec)) :=
        r.listenAdverts.mapIdx fun i queued => ⟨queued.1, buckets i, EbNRadioBT4.messageEffect r queued.2⟩
      if n.handshaking party then none
      else
        (EbNRadio.receiveAll digest incoming r.toEbNRadio).map fun base =>
          { n.setRadio party { r with toEbNRadio := base, listenAdverts := [] } with
            connections := n.connections.map fun c => if c.responder = party then c.drain sha256 r else c }
  | .changeEpoch party key randomAddress =>
      if n.handshaking party then none
      else some (n.setRadio party ((n.radio party).changeEpoch g key randomAddress))
  | .other party change =>
      let r := n.radio party
      some (n.setRadio party { change r with dhExchange := r.dhExchange, listenAdverts := r.listenAdverts })

/-- The queued connections of a party that drains its queue were answered with the key it has now. -/
def Current : NetworkEvent N P ec → Prop
  | .drain party _ => ∀ c ∈ n.connections, c.responder = party → c.server.isQueued = true →
      c.dhExchangeCopy = some (n.radio party).dhExchange
  | _ => True

instance [DecidableEq ec.Key] (event : NetworkEvent N P ec) : Decidable (n.Current event) :=
  match event with
  | .drain party _ => inferInstanceAs (Decidable (∀ c ∈ n.connections, c.responder = party → c.server.isQueued = true →
      c.dhExchangeCopy = some (n.radio party).dhExchange))
  | .connect .. | .client .. | .server .. | .changeEpoch .. | .other .. => isTrue trivial

end Network

end Sddr.Control
