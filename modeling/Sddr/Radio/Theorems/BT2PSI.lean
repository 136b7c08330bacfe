import Sddr.Radio.Lemmas.BT2PSI

/-! # Main results about the sessions of a private set intersection -/

namespace Sddr.Radio.BT2PSI
open Sddr.Lib Sddr.Codec

variable {ec : Ec}

/-- However the steps of the two sides are ordered, no state is stuck, what is received and parsed is what the peer sends
and produces for that step, and all runs end after as many steps in one finished state. -/
theorem session_completes (initiator responder : Party ec) (hframed : Framed initiator responder) :
    ∃ N, Finished (last initiator responder) ∧
      ∀ n c, Steps Net.Step n (Net.start initiator.handshake responder.listen) c →
        (Finished c ∨ ∃ c', Net.Step c c') ∧
          c.leftLog <+: initiatorLog initiator responder ∧ c.rightLog <+: responderLog initiator responder ∧
          Matches c.leftLog (responderLog initiator responder) ∧ Matches c.rightLog (initiatorLog initiator responder) ∧
          ∃ m, n + m = N ∧ Steps Net.Step m c (last initiator responder) := by
  obtain ⟨N, hall⟩ := Steps.of_reflTransGen (start_last initiator responder hframed)
  refine ⟨N, last_finished initiator responder, fun n c hrun => ?_⟩
  have hend : ∀ d, ¬ Net.Step (last initiator responder) d := Net.no_step rfl rfl
  obtain ⟨m, hm, hrest⟩ := Net.diamond.complete hend hall hrun
  obtain ⟨hleft, hright⟩ := Net.logs_prefix hrest
  refine ⟨?_, hleft, hright, (initiator_matches _ _).of_shorter hleft, (responder_matches _ _).of_shorter hright, m, hm, hrest⟩
  cases hrest with
  | zero => exact Or.inl (last_finished initiator responder)
  | succ hstep _ => exact Or.inr ⟨_, hstep⟩

/-- Parties whose PSI servers publish their data and whose requests are empty. -/
def openParty (key : Byte) (advertisedSet : List Str) : Party byteCurve :=
  ⟨ECDH.generateSecret key, advertisedSet, [], ⟨fun data => data, fun data _ => data, fun _ input => input⟩⟩

theorem session_completes_open :
    ∃ N, Finished (last (openParty 3 [[1, 0], []]) (openParty 5 [])) ∧
      ∀ n c, Steps Net.Step n (Net.start (openParty 3 [[1, 0], []]).handshake (openParty 5 []).listen) c →
        (Finished c ∨ ∃ c', Net.Step c c') ∧
          c.leftLog <+: initiatorLog (openParty 3 [[1, 0], []]) (openParty 5 []) ∧
          c.rightLog <+: responderLog (openParty 3 [[1, 0], []]) (openParty 5 []) ∧
          Matches c.leftLog (responderLog (openParty 3 [[1, 0], []]) (openParty 5 [])) ∧
          Matches c.rightLog (initiatorLog (openParty 3 [[1, 0], []]) (openParty 5 [])) ∧
          ∃ m, n + m = N ∧ Steps Net.Step m c (last (openParty 3 [[1, 0], []]) (openParty 5 [])) :=
  session_completes (openParty 3 [[1, 0], []]) (openParty 5 []) ⟨by decide, by decide, by decide, by decide, by decide, by decide⟩

end Sddr.Radio.BT2PSI
