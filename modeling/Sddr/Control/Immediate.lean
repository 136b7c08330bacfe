import Sddr.Control.EbNHystPolicy

/-!
# What the Immediate scheme is to remember

`reported` holds the ids that were appended to `newlyDiscovered` and have not expired since, with their last sighting.
-/

namespace Sddr.Control
open Sddr.Lib Sddr.Device

abbrev Reported := DeviceID → Option Time

/-- The ids that a call of `discovered` appends to `newlyDiscovered`. -/
def EbNHystPolicy.appended (p : EbNHystPolicy) (events : List DiscoverEvent) (newlyDiscovered : List (DeviceID × Time))
    (time : Time) : List DeviceID :=
  ((p.discovered events newlyDiscovered time).newlyDiscovered.drop newlyDiscovered.length).map Prod.fst

def Reported.step (p : EbNHystPolicy) (reported : Reported) (call : TimedCall) : Reported :=
  match call.1 with
  | .discovered events newlyDiscovered => fun id =>
      if id ∈ p.appended events newlyDiscovered call.2 ∨ (reported id).isSome ∧ id ∈ events.map DiscoverEvent.id then
        some call.2
      else reported id
  | .encountered _ => reported
  | .checkExpired => fun id => if id ∈ (p.checkExpired call.2).1.map Prod.fst then none else reported id

/-- All of a batch is to shake hands, only what was not tracked is reported, each once, and what was reported expires
when it is silent for longer than `endTime`, the limit of an encountered device. -/
def Remembers (p : EbNHystPolicy) (reported : Reported) (call : TimedCall) : Prop :=
  match call.1 with
  | .discovered events newlyDiscovered =>
      (∀ e ∈ events, e.id ∈ (p.discovered events newlyDiscovered call.2).toHandshake) ∧
        (p.appended events newlyDiscovered call.2).Nodup ∧
        ∀ id ∈ p.appended events newlyDiscovered call.2, reported id = none ∧ id ∉ p.deviceInfo
  | .encountered _ => True
  | .checkExpired => ∀ id time, reported id = some time → p.endTime.toNat < call.2.toNat - time.toNat →
      id ∈ (p.checkExpired call.2).1.map Prod.fst

/-- No id of a batch was reported or encountered before since it last expired, and an id that is silent for too long
was encountered long enough ago. -/
def Fresh (p : EbNHystPolicy) (reported : Reported) (call : TimedCall) : Prop :=
  match call.1 with
  | .discovered events _ =>
      (events.map DiscoverEvent.id).Nodup ∧ ∀ e ∈ events, reported e.id = none ∧ e.id ∉ p.deviceInfo
  | .encountered _ => True
  | .checkExpired => ∀ id time, reported id = some time → p.endTime.toNat < call.2.toNat - time.toNat →
      ∃ info, p.deviceInfo.lookup id = some info ∧ p.isExpired call.2 info = true

/-- `Holds` of every call of a run. -/
def EveryCall (Holds : EbNHystPolicy → Reported → TimedCall → Prop) (p : EbNHystPolicy) (reported : Reported) :
    List TimedCall → Prop
  | [] => True
  | call :: calls => Holds p reported call ∧ EveryCall Holds (p.step call) (reported.step p call) calls

end Sddr.Control
