import Mathlib.Order.Basic
import Sddr.Control.EbNHystPolicy

/-!
# What the policy is for

The policy in terms of all that was observed of an id since it is tracked, with times as natural numbers. The code keeps
two times, a counter and a state instead.
-/

namespace Sddr.Control
open Sddr.Lib Sddr.Device

/-- An id is seen in a discovery, with a strong signal or not, or it is encountered. -/
inductive Observation where
  | sighted (time : Nat) (strong : Bool)
  | encountered (time : Nat)
  deriving DecidableEq

namespace Observation

def time : Observation → Nat
  | sighted time _ => time
  | encountered time => time

def isStrong : Observation → Bool
  | sighted _ strong => strong
  | encountered _ => false

def sightingTime : Observation → Option Nat
  | sighted time _ => some time
  | encountered _ => none

end Observation

structure Limits where
  minStartTime : Nat
  maxStartTime : Nat
  startSeen : Nat
  endTime : Nat
  rssiThreshold : Int

/-! ## One id -/

def firstTime (obs : List Observation) : Nat := (obs.head?.map Observation.time).getD 0

/-- When the id was last sighted, or first observed if it never was. -/
def lastSighting (obs : List Observation) : Nat :=
  (obs.filterMap Observation.sightingTime).getLastD (firstTime obs)

def strongSightings (obs : List Observation) : Nat := (obs.filter Observation.isStrong).length

/-- The id was encountered, or at one of its sightings there had been enough strong ones for long enough. -/
def Qualifies (limits : Limits) (obs : List Observation) : Prop :=
  (∃ time, .encountered time ∈ obs) ∨
    ∃ pre time strong, pre ++ [.sighted time strong] <+: obs ∧
      limits.startSeen ≤ strongSightings (pre ++ [.sighted time strong]) ∧
      limits.minStartTime ≤ time - firstTime obs

/-- Tracked, and not sighted for longer than the limit that applies. -/
def Overdue (limits : Limits) (time : Nat) (obs : List Observation) : Prop :=
  obs ≠ [] ∧
    (Qualifies limits obs → limits.endTime < time - lastSighting obs) ∧
    (¬ Qualifies limits obs → limits.maxStartTime < time - lastSighting obs)

/-! ## All ids -/

/-- What was observed of each id since it is tracked; nothing if it is not. -/
abbrev History := DeviceID → List Observation

def History.sight (limits : Limits) (time : Time) (h : History) (discovery : DiscoverEvent) : History :=
  Function.update h discovery.id
    (h discovery.id ++ [.sighted time.toNat (decide (limits.rssiThreshold < discovery.rssi.toInt))])

open Classical in
noncomputable def History.step (limits : Limits) (h : History) (call : TimedCall) : History :=
  match call.1 with
  | .discovered events _ => events.foldl (History.sight limits call.2) h
  | .encountered devices => fun id => if id ∈ devices then h id ++ [.encountered call.2.toNat] else h id
  | .checkExpired => fun id => if Overdue limits call.2.toNat (h id) then [] else h id

def EbNHystPolicy.limits (p : EbNHystPolicy) : Limits :=
  ⟨p.minStartTime.toNat, p.maxStartTime.toNat, p.startSeen, p.endTime.toNat, p.rssiThreshold.toInt⟩

end Sddr.Control
