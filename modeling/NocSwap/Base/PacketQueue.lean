import Mathlib.Algebra.Group.Nat.Defs
import NocSwap.Lib.Outcome

/-!
# Packet queues

`PacketQueue` holds packets until they are due and sends them through a port that may refuse.
-/

namespace NocSwap.Base

def maxTick : Nat := 2 ^ 64 - 1

structure DeferredPacket where
  tick : Nat
  pkt : Nat
  addr : Nat
deriving DecidableEq

structure PacketQueue where
  transmitList : List DeferredPacket := []
  /-- The tick of `sendEvent`, if it is scheduled. -/
  sendEvent : Option Nat := none
  waitingOnRetry : Bool := false
  disableSanityCheck : Bool := false
  curTick : Nat := 0
  /-- How often `schedSendTiming` has been called. -/
  calls : Nat := 0
  /-- The tick of the last change of `transmitList`. -/
  changed : Nat := 0

inductive PacketQueue.Fault
  | assertion
  | grown
deriving DecidableEq

namespace PacketQueue

open Fault

/-- `PacketQueue::schedSendEvent`, outside draining. -/
def schedSendEvent (q : PacketQueue) (when : Nat) : Except Fault PacketQueue := do
  if q.waitingOnRetry then
    require assertion (q.sendEvent = none)
    return q
  if when = maxTick then return q
  let when := max when (q.curTick + 1)
  match q.sendEvent with
  | none => return { q with sendEvent := some when }
  | some w => return if when < w then { q with sendEvent := some when } else q

/-- The loop of `schedSendTiming` from the end: the position that it reaches from position `i`. -/
def searchBack (l : List DeferredPacket) (when addr : Nat) (forceOrder : Bool) : Nat → Nat
  | 0 => 0
  | i + 1 =>
    match l[i + 1]? with
    | some p =>
      if when < p.tick && !(forceOrder && p.addr == addr) then searchBack l when addr forceOrder i
      else i + 1
    | none => i + 1

def schedSendTiming (q : PacketQueue) (addr when : Nat) (forceOrder : Bool) :
    Except Fault PacketQueue := do
  require assertion (q.curTick ≤ when)
  require grown (q.disableSanityCheck = true ∨ q.transmitList.length ≤ 100)
  let p : DeferredPacket := ⟨when, q.calls, addr⟩
  let q := { q with calls := q.calls + 1, changed := q.curTick }
  match q.transmitList with
  | [] => schedSendEvent { q with transmitList := [p] } when
  | l =>
    let i := searchBack l when addr forceOrder (l.length - 1)
    return { q with transmitList := l.take (i + 1) ++ p :: l.drop (i + 1) }

/-- `PacketQueue::sendDeferredPacket`, where `sendTiming` returns `sent`. -/
def sendDeferredPacket (q : PacketQueue) (sent : Bool) : Except Fault PacketQueue := do
  require assertion (q.waitingOnRetry = false)
  match q.transmitList with
  | [] => .error assertion
  | dp :: l =>
    require assertion (dp.tick ≤ q.curTick)
    if sent then
      schedSendEvent { q with transmitList := l, changed := q.curTick }
        ((l.head?.map DeferredPacket.tick).getD maxTick)
    else return { q with waitingOnRetry := true, changed := q.curTick }

inductive Op
  | schedSendTiming (addr when : Nat)
  | processSendEvent (sent : Bool)
  | retry (sent : Bool)
  | advance (tick : Nat)

def exec (q : PacketQueue) : Op → Except Fault PacketQueue
  | .schedSendTiming addr when => q.schedSendTiming addr when false
  | .processSendEvent sent =>
    if q.sendEvent = some q.curTick then { q with sendEvent := none }.sendDeferredPacket sent
    else .ok q
  | .retry sent =>
    if q.waitingOnRetry then { q with waitingOnRetry := false }.sendDeferredPacket sent else .ok q
  | .advance tick =>
    if q.curTick ≤ tick ∧ ∀ w ∈ q.sendEvent, tick ≤ w then .ok { q with curTick := tick } else .ok q

end PacketQueue

end NocSwap.Base
