import Mathlib.Data.Rat.Defs
import NocSwap.Lib.Outcome

/-!
# The synthetic traffic tester

`GarnetSyntheticTraffic` and its place on the retry list of the `RubyPort` it sends to.
-/

namespace NocSwap.Tester

inductive Fault
  /-- `sendTimingReq` of the null packet. -/
  | nullPacket
  /-- `fatal("unknown 'sim_type: %d' option given")`. -/
  | unknownSimType
  deriving DecidableEq, Repr

/-- The parameters of the tester and of its port. -/
structure Params where
  id : Int
  simCycles : Nat
  numPacketsMax : Int
  singleSender : Int
  simType : Int
  injRate : Rat
  precision : Nat
  noRetryOnStall : Bool

/-- The state of the tester, with the answers of the port. -/
structure SyntheticTraffic where
  /-- The number of packets that `generatePkt` has made. -/
  generated : Nat := 0
  /-- The packets that the port has taken, in order. -/
  accepted : List Nat := []
  retryPkt : Option Nat := none
  numPacketsSent : Nat := 0
  noResponseCycles : Nat := 0
  tickScheduled : Bool := true
  exitSimLoop : Bool := false
  /-- Whether the port of the tester is on the `retryList`. -/
  onRetryList : Bool := false
  deriving DecidableEq, Repr

namespace SyntheticTraffic

variable (P : Params)

def addToRetryList (s : SyntheticTraffic) : SyntheticTraffic :=
  if P.noRetryOnStall = false ∧ s.onRetryList = false then { s with onRetryList := true } else s

def sendTimingReq (pkt : Nat) (answer : Bool) (s : SyntheticTraffic) : SyntheticTraffic :=
  if answer = true then { s with accepted := s.accepted ++ [pkt] } else s.addToRetryList P

def sendPkt (pkt : Nat) (answer : Bool) (s : SyntheticTraffic) : SyntheticTraffic :=
  let s := s.sendTimingReq P pkt answer
  let s := if answer = false then { s with retryPkt := some pkt } else s
  { s with numPacketsSent := s.numPacketsSent + 1 }

def generatePkt (answer : Bool) (s : SyntheticTraffic) : SyntheticTraffic :=
  let pkt := s.generated
  { s with generated := s.generated + 1 }.sendPkt P pkt answer

def sends (trySending : Nat) (s : SyntheticTraffic) : Prop :=
  (trySending : Rat) < P.injRate * 10 ^ P.precision ∧
    ¬ (0 ≤ P.numPacketsMax ∧ P.numPacketsMax ≤ s.numPacketsSent) ∧
    ¬ (0 ≤ P.singleSender ∧ P.id ≠ P.singleSender)

instance (trySending : Nat) (s : SyntheticTraffic) : Decidable (s.sends P trySending) :=
  inferInstanceAs (Decidable (_ ∧ _))

def scheduleWakeup (curTick : Nat) (s : SyntheticTraffic) : Except Fault SyntheticTraffic :=
  if P.simType = 1 then
    if P.simCycles ≤ curTick then return { s with exitSimLoop := true }
    else return { s with tickScheduled := true }
  else if P.simType = 2 then return { s with tickScheduled := true }
  else .error .unknownSimType

def tick (curTick trySending : Nat) (answer : Bool) (s : SyntheticTraffic) : Except Fault SyntheticTraffic :=
  let s := { s with noResponseCycles := s.noResponseCycles + 1, tickScheduled := false }
  let s := if s.sends P trySending then s.generatePkt P answer else s
  s.scheduleWakeup P curTick

def doRetry (answer : Bool) (s : SyntheticTraffic) : Except Fault SyntheticTraffic := do
  let pkt ← orFail .nullPacket s.retryPkt
  let s := s.sendTimingReq P pkt answer
  return if answer = true then { s with retryPkt := none } else s

/-- `RubyPort::trySendRetries`, as far as the port of the tester goes. -/
def trySendRetries (answer : Bool) (s : SyntheticTraffic) : Except Fault SyntheticTraffic :=
  if s.onRetryList = true then { s with onRetryList := false }.doRetry P answer
  else return s

def completeRequest (s : SyntheticTraffic) : SyntheticTraffic := { s with noResponseCycles := 0 }

inductive Label
  | tick (curTick trySending : Nat) (answer : Bool)
  | trySendRetries (answer : Bool)
  | completeRequest
  deriving DecidableEq, Repr

def step (s : SyntheticTraffic) : Label → Except Fault SyntheticTraffic
  | .tick curTick trySending answer => s.tick P curTick trySending answer
  | .trySendRetries answer => s.trySendRetries P answer
  | .completeRequest => return s.completeRequest

def run (ls : List Label) (s : SyntheticTraffic) : Except Fault SyntheticTraffic := ls.foldlM (step P) s

end SyntheticTraffic

end NocSwap.Tester
