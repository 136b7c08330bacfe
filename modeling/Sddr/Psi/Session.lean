import Sddr.Psi.JL10
import Sddr.Radio.BT2PSI

/-!
# The intersection in a session

What a session of `EbNRadioBT2PSI.cpp` makes of its PSI client. Both sides run a client and a server of their own, and the
data a client has parsed are taken from the notes of the session.
-/

namespace Sddr.Psi
open Sddr.Lib Sddr.Codec Sddr.Device Sddr.Radio Sddr.Radio.BT2PSI

/-- The outputs of a client and a server in the adaptive mode with these random numbers. -/
def library (sha : SHA1) {key : DSAKey} (draws : Draws key) : PSILibrary where
  publishData data := (JL10Server.start sha key true data draws.stale draws.k).publishData []
  request data published :=
    ((((JL10Client.start sha key true data draws.r draws.rop).storeData published).request1 []).map Prod.snd).getD []
  response data input :=
    (((JL10Server.start sha key true data draws.stale draws.k).onRequest1 input).map JL10Server.response1).getD []

/-- One side of a session. -/
structure Side (ec : Ec) (key : DSAKey) where
  dhExchange : ECDH ec
  advertisedSet : List LinkValue
  listenSet : List LinkValue
  draws : Draws key

namespace Side

variable {ec : Ec} {key : DSAKey} (sha : SHA1) (side : Side ec key)

def party : Party ec := ⟨side.dhExchange, side.advertisedSet, side.listenSet, library sha side.draws⟩

/-- The calls to the client: `StoreData` and `Request1` for what the peer publishes, `OnResponse1` for its answer. -/
def clientStep (c : JL10Client) : Event → Option JL10Client
  | .parsed .HC1 published | .parsed .LC1 published => ((c.storeData published).request1 []).map Prod.fst
  | .parsed .HC2 input | .parsed .LC2 input => c.onResponse1 sha side.draws.stale input
  | _ => some c

/-- The client after a session with these notes. -/
def client (log : List Event) : Option JL10Client :=
  log.foldlM (side.clientStep sha)
    (JL10Client.start sha key true (side.party sha).psiClientData side.draws.r side.draws.rop)

end Side

end Sddr.Psi
