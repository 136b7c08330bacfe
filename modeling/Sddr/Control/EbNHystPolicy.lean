import Mathlib.Data.Finset.Sort
import Sddr.Device.LinkValue
import Sddr.Lib.UMap

/-!
# EbNHystPolicy

`EbNHystPolicy.h` and `EbNHystPolicy.cpp`: which discovered devices are close for long enough to shake hands with, and
which are gone. `time` is what `getTimeMS()` returns in a call.
-/

namespace Sddr.Control
open Sddr.Lib Sddr.Device

/-- `EbNHystPolicy::Scheme_::Type`. -/
inductive Scheme where
  | Standard
  | Immediate
  | ImmediateNoMem
  deriving DecidableEq, Repr

def Scheme.toNat : Scheme → Nat
  | Standard => 0
  | Immediate => 1
  | ImmediateNoMem => 3

inductive HystState where
  | Discovered
  | Encountered
  deriving DecidableEq, Repr

structure DeviceInfo where
  firstTime : Time
  lastTime : Time
  seen : Nat
  state : HystState
  deriving DecidableEq, Repr

/-- `DeviceInfo(time, state)`. -/
def DeviceInfo.new (time : Time) (state : HystState) : DeviceInfo := ⟨time, time, 0, state⟩

structure EbNHystPolicy where
  scheme : Scheme
  minStartTime : Time
  maxStartTime : Time
  startSeen : Nat
  endTime : Time
  rssiThreshold : BitVec 8
  deviceInfo : UMap DeviceID DeviceInfo

namespace EbNHystPolicy

def new (scheme : Scheme) (minStartTime maxStartTime : Time) (startSeen : Nat) (endTime : Time)
    (rssiThreshold : BitVec 8) : EbNHystPolicy :=
  ⟨scheme, minStartTime, maxStartTime, startSeen, endTime, rssiThreshold, ∅⟩

/-! ## discovered -/

/-- `lastTime` and `seen` after a discovery. -/
def sight (p : EbNHystPolicy) (info : DeviceInfo) (rssi : BitVec 8) (time : Time) : DeviceInfo :=
  { info with
    lastTime := time
    seen := if p.rssiThreshold.slt rssi then info.seen + 1 else info.seen }

/-- The condition for `HystState::Encountered`. -/
def starts (p : EbNHystPolicy) (info : DeviceInfo) : Bool :=
  (decide (info.seen ≥ p.startSeen) && decide (info.lastTime - info.firstTime ≥ p.minStartTime))
    || (p.scheme.toNat &&& Scheme.Immediate.toNat) != 0

/-- The `switch` of `discovered`: the entry with its new state, and whether to shake hands. -/
def checkState (p : EbNHystPolicy) (info : DeviceInfo) : DeviceInfo × Bool :=
  match info.state with
  | .Discovered => if p.starts info then ({ info with state := .Encountered }, true) else (info, false)
  | .Encountered => (info, true)

/-- What `discovered` builds up in its loop. -/
structure Discovery where
  policy : EbNHystPolicy
  toHandshake : Finset DeviceID
  newlyDiscovered : List (DeviceID × Time)

/-- The body of the loop of `discovered`. -/
def discover (time : Time) (s : Discovery) (discovery : DiscoverEvent) : Discovery :=
  let p := s.policy
  if (p.scheme.toNat &&& Scheme.ImmediateNoMem.toNat) = 0 then
    let found := p.deviceInfo.lookup discovery.id
    let checked := p.checkState (p.sight (found.getD (.new time .Discovered)) discovery.rssi time)
    { policy := { p with deviceInfo := p.deviceInfo.insert discovery.id checked.1 }
      toHandshake := if checked.2 then insert discovery.id s.toHandshake else s.toHandshake
      newlyDiscovered :=
        if found.isSome then s.newlyDiscovered else s.newlyDiscovered ++ [(discovery.id, time)] }
  else
    { s with
      toHandshake := insert discovery.id s.toHandshake
      newlyDiscovered := s.newlyDiscovered ++ [(discovery.id, time)] }

def discovered (p : EbNHystPolicy) (events : List DiscoverEvent) (newlyDiscovered : List (DeviceID × Time))
    (time : Time) : Discovery :=
  events.foldl (discover time) ⟨p, ∅, newlyDiscovered⟩

/-! ## encountered -/

/-- The entry that `encountered` leaves, for the one it finds. -/
def encounterInfo (time : Time) : Option DeviceInfo → DeviceInfo
  | none => .new time .Encountered
  | some info => { info with state := .Encountered }

/-- The body of the loop of `encountered`. -/
def encounter (time : Time) (p : EbNHystPolicy) (id : DeviceID) : EbNHystPolicy :=
  { p with deviceInfo := p.deviceInfo.insert id (encounterInfo time (p.deviceInfo.lookup id)) }

def encountered (p : EbNHystPolicy) (devices : Finset DeviceID) (time : Time) : EbNHystPolicy :=
  (devices.sort (· ≤ ·)).foldl (encounter time) p

/-! ## checkExpired -/

/-- The variable `remove`. -/
def isExpired (p : EbNHystPolicy) (time : Time) (info : DeviceInfo) : Bool :=
  match info.state with
  | .Discovered => decide (time - info.lastTime > p.maxStartTime)
  | .Encountered => decide (time - info.lastTime > p.endTime)

def checkExpired (p : EbNHystPolicy) (time : Time) : List (DeviceID × Time) × EbNHystPolicy :=
  let erased := UMap.eraseWhere (p.isExpired time) p.deviceInfo p.deviceInfo.entries
  (erased.1.map fun entry => (entry.1, entry.2.lastTime), { p with deviceInfo := erased.2 })

end EbNHystPolicy

/-! ## Runs -/

inductive PolicyCall where
  | discovered (events : List DiscoverEvent) (newlyDiscovered : List (DeviceID × Time))
  | encountered (devices : Finset DeviceID)
  | checkExpired

/-- Calls with the clock readings they make. -/
abbrev TimedCall := PolicyCall × Time

def EbNHystPolicy.step (p : EbNHystPolicy) (call : TimedCall) : EbNHystPolicy :=
  match call.1 with
  | .discovered events newlyDiscovered => (p.discovered events newlyDiscovered call.2).policy
  | .encountered devices => p.encountered devices call.2
  | .checkExpired => (p.checkExpired call.2).2

end Sddr.Control
