import Sddr.Codec.Lemmas.PSIMessage
import Sddr.Radio.BT2PSI

/-!
# What the steps of a session do

One lemma for each step, on the bytes it takes in and those it sends, and one run that puts them together.
-/

namespace Sddr.Radio.BT2PSI
open Sddr.Lib Sddr.Codec

variable {ec : Ec} {message : List Byte}

theorem does_note (event : Event) : (note event).Does [] [] [event] (pure ()) := Proc.does_note event _

theorem does_send (message : List Byte) : (send message).Does [] message [] (pure true) := Proc.does_send message _

theorem does_recv {size : Nat} (message : List Byte) (hsize : message.length = size) :
    (recv size).Does message [] [] (pure (true, message)) := by
  subst hsize
  exact Proc.does_recv message [] _

theorem does_sendPublic (p : Party ec) :
    (p.sendPublic ⟨true, message⟩).Does [] p.publicBytes [.sent .dh p.publicBytes] (pure ⟨true, message⟩) :=
  ((does_note _).seq _).trans ((does_send p.publicBytes).seq _)

theorem does_recvPublic (p : Party ec) {remotePublic : List Byte} (h : remotePublic.length = p.dhExchange.getPublicSize) :
    (p.recvPublic ⟨true, message⟩).Does remotePublic [] [.received .dh remotePublic] (pure ⟨true, message⟩) := by
  have hrecv := (does_recv remotePublic h).seq fun result => if result.1 then do
      note (.received .dh result.2)
      return (⟨result.1, message⟩ : Session)
    else return ⟨result.1, message⟩
  have hnote := (does_note (.received .dh remotePublic)).seq fun _ => (return ⟨true, message⟩ : Proc Byte Event Session)
  have hall := hrecv.trans hnote
  rwa [List.append_nil] at hall

theorem does_sendMessage (phase : Phase) {output : List Str} (hsize : framedSize output < 2 ^ 32) :
    (sendMessage phase output ⟨true, message⟩).Does [] (framed output)
      [.produced phase output, .sent phase (framed output)] (pure ⟨true, framed output⟩) := by
  rw [sendMessage, constructPSIMessage_eq message output hsize]
  exact ((does_note _).seq _).trans (((does_note _).seq _).trans ((does_send (framed output)).seq _))

theorem does_recvMessage (phase : Phase) {input : List Str} (hsize : framedSize input < 2 ^ 32)
    {body : List Str → Session → Proc Byte Event Session} {out : List Byte} {events : List Event} {s : Session}
    (hbody : (body input ⟨true, elements input⟩).Does [] out events (pure s)) :
    (recvMessage phase body ⟨true, message⟩).Does (framed input) out
      (.received phase (framed input) :: .parsed phase input :: events) (pure s) := by
  have hlength : ofLittleEndian (littleEndian 4 (elements input).length) = (elements input).length := by
    apply ofLittleEndian_littleEndian
    rw [length_elements]
    unfold framedSize at hsize
    omega
  have hbytes : framed input = littleEndian 4 (elements input).length ++ (elements input ++ ([] ++ ([] ++ []))) := by
    simp only [List.append_nil, framed]
  rw [recvMessage, if_pos rfl]
  conv => enter [2]; rw [hbytes]
  refine Proc.Does.trans (o := []) (e := []) ((does_recv _ (length_littleEndian 4 _)).seq _) ?_
  refine Proc.Does.trans (o := []) (e := []) ((does_recv _ hlength.symm).seq _) ?_
  refine Proc.Does.trans (o := []) (e := [_]) ((does_note _).seq _) ?_
  rw [parsePSIMessage_elements input hsize]
  exact Proc.Does.trans (o := []) (e := [_]) ((does_note _).seq _) hbody

/-- The steps that answer what they receive. -/
theorem does_answer (phase : Phase) (f : List Str → List Str) {input : List Str} (hinput : framedSize input < 2 ^ 32)
    (houtput : framedSize (f input) < 2 ^ 32) :
    (recvMessage phase (fun input s => sendMessage phase (f input) s) ⟨true, message⟩).Does (framed input) (framed (f input))
      [.received phase (framed input), .parsed phase input, .produced phase (f input), .sent phase (framed (f input))]
      (pure ⟨true, framed (f input)⟩) :=
  does_recvMessage phase hinput (does_sendMessage phase houtput)

/-- The steps that only keep what they receive. -/
theorem does_keep (phase : Phase) {input : List Str} (hinput : framedSize input < 2 ^ 32) :
    (recvMessage phase (fun _ s => return s) ⟨true, message⟩).Does (framed input) []
      [.received phase (framed input), .parsed phase input] (pure ⟨true, elements input⟩) :=
  does_recvMessage phase hinput .refl

/-! ## A whole session -/

/-- The notes of the initiator: the keys, its client with the server of the responder, and its server with the client of
the responder. -/
def initiatorLog (p q : Party ec) : List Event :=
  let request := p.request q.publishData
  let request' := q.request p.publishData
  [.sent .dh p.publicBytes, .received .dh q.publicBytes,
    .received .HC1 (framed q.publishData), .parsed .HC1 q.publishData, .produced .HC1 request, .sent .HC1 (framed request),
    .received .HC2 (framed (q.response request)), .parsed .HC2 (q.response request),
    .produced .HS1 p.publishData, .sent .HS1 (framed p.publishData),
    .received .HS2 (framed request'), .parsed .HS2 request',
    .produced .HS2 (p.response request'), .sent .HS2 (framed (p.response request'))]

def responderLog (p q : Party ec) : List Event :=
  let request := p.request q.publishData
  let request' := q.request p.publishData
  [.sent .dh q.publicBytes, .received .dh p.publicBytes,
    .produced .LS1 q.publishData, .sent .LS1 (framed q.publishData),
    .received .LS2 (framed request), .parsed .LS2 request,
    .produced .LS2 (q.response request), .sent .LS2 (framed (q.response request)),
    .received .LC1 (framed p.publishData), .parsed .LC1 p.publishData,
    .produced .LC1 request', .sent .LC1 (framed request'),
    .received .LC2 (framed (p.response request')), .parsed .LC2 (p.response request')]

/-- The state that all runs end in. -/
def last (p q : Party ec) : Net Byte Event Session Session :=
  let response' := p.response (q.request p.publishData)
  ⟨.done ⟨true, framed response'⟩, .done ⟨true, elements response'⟩, initiatorLog p q, responderLog p q, [], []⟩

theorem length_publicBytes (p q : Party ec) : q.publicBytes.length = p.dhExchange.getPublicSize := Mem.length_take _ _

/-- One order of the steps: each message is received before the next one is sent. -/
theorem start_last (p q : Party ec) (h : Framed p q) :
    Relation.ReflTransGen Net.Step (Net.start p.handshake q.listen) (last p q) := by
  refine (Net.left_does ((does_sendPublic p).seq _) _ rfl [] rfl).trans ?_
  refine (Net.right_does ((does_sendPublic q).seq _) _ rfl p.publicBytes rfl).trans ?_
  refine (Net.left_does ((does_recvPublic p (length_publicBytes p q)).seq _) _ rfl [] (by simp)).trans ?_
  refine (Net.right_does ((does_recvPublic q (length_publicBytes q p)).seq _) _ rfl [] (by simp)).trans ?_
  refine (Net.right_does ((does_sendMessage .LS1 h.published).seq _) _ rfl [] rfl).trans ?_
  refine (Net.left_does ((does_answer .HC1 p.request h.published h.request).seq _) _ rfl [] (by simp)).trans ?_
  refine (Net.right_does ((does_answer .LS2 q.response h.request h.response).seq _) _ rfl [] (by simp)).trans ?_
  refine (Net.left_does ((does_keep .HC2 h.response).seq _) _ rfl [] (by simp)).trans ?_
  refine (Net.left_does ((does_sendMessage .HS1 h.published').seq _) _ rfl [] rfl).trans ?_
  refine (Net.right_does ((does_answer .LC1 q.request h.published' h.request').seq _) _ rfl [] (by simp)).trans ?_
  refine (Net.left_does (does_answer .HS2 p.response h.request' h.response') _ rfl [] (by simp)).trans ?_
  refine (Net.right_does (does_keep .LC2 h.response') _ rfl [] (by simp)).trans ?_
  exact .refl

theorem last_finished (p q : Party ec) : Finished (last p q) := ⟨⟨_, rfl⟩, ⟨_, rfl⟩, rfl, rfl⟩

theorem Matches.of_shorter {log log' peer : List Event} (h : Matches log' peer) (hshorter : log <+: log') :
    Matches log peer where
  received phase message hmem := h.received phase message (hshorter.subset hmem)
  parsed phase input hmem := h.parsed phase input (hshorter.subset hmem)

theorem initiator_matches (p q : Party ec) : Matches (initiatorLog p q) (responderLog p q) where
  received phase message h := by
    simp only [initiatorLog, List.mem_cons, Event.received.injEq, reduceCtorEq, false_or, List.not_mem_nil, or_false] at h
    rcases h with ⟨rfl, rfl⟩ | ⟨rfl, rfl⟩ | ⟨rfl, rfl⟩ | ⟨rfl, rfl⟩ <;> simp [responderLog, Phase.sender]
  parsed phase input h := by
    simp only [initiatorLog, List.mem_cons, Event.parsed.injEq, reduceCtorEq, false_or, List.not_mem_nil, or_false] at h
    rcases h with ⟨rfl, rfl⟩ | ⟨rfl, rfl⟩ | ⟨rfl, rfl⟩ <;> simp [responderLog, Phase.sender]

theorem responder_matches (p q : Party ec) : Matches (responderLog p q) (initiatorLog p q) where
  received phase message h := by
    simp only [responderLog, List.mem_cons, Event.received.injEq, reduceCtorEq, false_or, List.not_mem_nil, or_false] at h
    rcases h with ⟨rfl, rfl⟩ | ⟨rfl, rfl⟩ | ⟨rfl, rfl⟩ | ⟨rfl, rfl⟩ <;> simp [initiatorLog, Phase.sender]
  parsed phase input h := by
    simp only [responderLog, List.mem_cons, Event.parsed.injEq, reduceCtorEq, false_or, List.not_mem_nil, or_false] at h
    rcases h with ⟨rfl, rfl⟩ | ⟨rfl, rfl⟩ | ⟨rfl, rfl⟩ <;> simp [initiatorLog, Phase.sender]

end Sddr.Radio.BT2PSI
