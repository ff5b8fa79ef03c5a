import Mathlib.Data.List.Sort
import NocSwap.Lib.Outcome
import NocSwap.Ruby.Fault

/-!
# Protocol messages and their buffers

The queue between a controller and the network: a heap by arrival time and counter, a map of stalled
messages, a size bound and a callback.
-/

namespace NocSwap

structure NetDest where
  nodes : List Nat
  sorted : nodes.Pairwise (· < ·)
  deriving DecidableEq

namespace NetDest

def singleton (d : Nat) : NetDest := ⟨[d], List.pairwise_singleton _ _⟩

def getAllDest (d : NetDest) : List Nat := d.nodes

/-- `NetDest::removeNetDest`: the nodes of `d` that are not in `e`. -/
def removeNetDest (d e : NetDest) : NetDest :=
  ⟨d.nodes.filter (fun n => decide (n ∉ e.nodes)), d.sorted.filter _⟩

/-- `NetDest::AND`: the nodes of `d` that are in `e`. -/
def AND (d e : NetDest) : NetDest :=
  ⟨d.nodes.filter (fun n => decide (n ∈ e.nodes)), d.sorted.filter _⟩

def intersectionIsNotEmpty (d e : NetDest) : Bool := d.nodes.any fun n => decide (n ∈ e.nodes)

def count (d : NetDest) : Nat := d.nodes.length

end NetDest

structure Message where
  time : Nat
  lastEnqueueTime : Nat
  delayedTicks : Nat
  msgCounter : Nat
  destination : NetDest
  deriving DecidableEq

namespace Message

def le (l r : Message) : Bool :=
  if l.lastEnqueueTime = r.lastEnqueueTime then decide (l.msgCounter ≤ r.msgCounter)
  else decide (l.lastEnqueueTime ≤ r.lastEnqueueTime)

def updateDelayedTicks (m : Message) (curTime : Nat) : Except Fault Message := do
  require .delayedTicks (m.lastEnqueueTime ≤ curTime)
  return { m with delayedTicks := m.delayedTicks + (curTime - m.lastEnqueueTime) }

end Message

structure MessageBuffer where
  prioHeap : List Message
  stallMsgMap : List (Nat × List Message)
  stallMapSize : Int
  maxSize : Nat
  timeLastTimeEnqueue : Nat
  timeLastTimePop : Nat
  lastArrivalTime : Nat
  strictFifo : Bool
  randomization : Bool
  msgCounter : Nat
  sizeAtCycleStart : Nat
  msgsThisCycle : Nat
  bufMsgs : Int
  dequeueCallback : Bool
  deriving DecidableEq

namespace MessageBuffer

def new (bufferSize : Nat) (ordered randomization : Bool) : MessageBuffer where
  prioHeap := []
  stallMsgMap := []
  stallMapSize := 0
  maxSize := bufferSize
  timeLastTimeEnqueue := 0
  timeLastTimePop := 0
  lastArrivalTime := 0
  strictFifo := ordered
  randomization := randomization
  msgCounter := 0
  sizeAtCycleStart := 0
  msgsThisCycle := 0
  bufMsgs := 0
  dequeueCallback := false

def push (m : Message) (h : List Message) : List Message :=
  h.orderedInsert (fun a b => a.le b = true) m

/-- The size `areNSlotsAvailable` looks at: pops of the current cycle do not count yet. -/
def visibleSize (b : MessageBuffer) (currentTime : Nat) : Nat :=
  if b.timeLastTimePop < currentTime then b.prioHeap.length
  else if b.timeLastTimeEnqueue < currentTime then b.sizeAtCycleStart
  else b.sizeAtCycleStart + b.msgsThisCycle

def areNSlotsAvailable (b : MessageBuffer) (n currentTime : Nat) : Bool :=
  if b.maxSize = 0 then true
  else decide ((b.visibleSize currentTime : Int) + b.stallMapSize + n ≤ b.maxSize)

def isReady (b : MessageBuffer) (currentTime : Nat) : Bool :=
  match b.prioHeap with
  | [] => false
  | m :: _ => decide (m.lastEnqueueTime ≤ currentTime)

def randomTime (rnd : Nat) : Nat :=
  1 + rnd % 4 + if rnd / 4 % 8 = 0 then 100 + (1 + rnd / 32 % 15) else 0

def arrivalTime (b : MessageBuffer) (rubyRandomization : Bool) (currentTime delta rnd : Nat) :
    Nat × Nat :=
  if !rubyRandomization && !b.randomization then (currentTime + delta, b.lastArrivalTime)
  else if b.strictFifo then
    let last := if b.lastArrivalTime < currentTime then currentTime else b.lastArrivalTime
    (last + randomTime rnd, last)
  else (currentTime + randomTime rnd, b.lastArrivalTime)

/-- The flags of `RubySystem` that the buffers read. -/
structure RubyFlags where
  randomization : Bool
  warmupEnabled : Bool
  deriving DecidableEq

/-- `MessageBuffer::enqueue`, with the time at which the consumer is to be woken. -/
def enqueue (flags : RubyFlags) (b : MessageBuffer) (m : Message) (currentTime delta rnd : Nat) :
    Except Fault (MessageBuffer × Nat) := do
  let first := b.timeLastTimeEnqueue < currentTime
  let msgsThisCycle := (if first then 0 else b.msgsThisCycle) + 1
  let timeLastTimeEnqueue := if first then currentTime else b.timeLastTimeEnqueue
  require .enqueueDelta (delta > 0)
  let (arrival, last) := b.arrivalTime flags.randomization currentTime delta rnd
  require .arrivalTime (arrival > currentTime)
  require .fifoOrder (¬ (b.strictFifo = true ∧ arrival < last))
  require .enqueuedEarly (currentTime ≥ m.lastEnqueueTime)
  let m ← m.updateDelayedTicks currentTime
  let m := { m with lastEnqueueTime := arrival, msgCounter := b.msgCounter + 1 }
  return ({ b with
      prioHeap := push m b.prioHeap
      timeLastTimeEnqueue := timeLastTimeEnqueue
      msgsThisCycle := msgsThisCycle
      msgCounter := b.msgCounter + 1
      lastArrivalTime := if flags.warmupEnabled then last else arrival
      bufMsgs := b.bufMsgs + 1 }, arrival)

/-- `MessageBuffer::dequeue`: the buffer without its first message. -/
def dequeue (b : MessageBuffer) (currentTime : Nat) (decrementMessages : Bool) :
    Except Fault (MessageBuffer × Message) := do
  require .dequeueNotReady (b.isReady currentTime = true)
  match b.prioHeap with
  | [] => .error .emptyBuffer
  | m :: rest =>
    let m ← m.updateDelayedTicks currentTime
    let first := b.timeLastTimePop < currentTime
    return ({ b with
        prioHeap := rest
        sizeAtCycleStart := if first then b.prioHeap.length else b.sizeAtCycleStart
        timeLastTimePop := if first then currentTime else b.timeLastTimePop
        bufMsgs := if decrementMessages then b.bufMsgs - 1 else b.bufMsgs }, m)

def registerDequeueCallback (b : MessageBuffer) : MessageBuffer :=
  { b with dequeueCallback := true }

def unregisterDequeueCallback (b : MessageBuffer) : MessageBuffer :=
  { b with dequeueCallback := false }

def delayHead (flags : RubyFlags) (b : MessageBuffer) (currentTime delta rnd : Nat) :
    Except Fault (MessageBuffer × Nat) :=
  match b.prioHeap with
  | [] => .error .emptyBuffer
  | m :: rest => enqueue flags { b with prioHeap := rest } m currentTime delta rnd

def recycle (b : MessageBuffer) (currentTime recycleLatency : Nat) :
    Except Fault (MessageBuffer × Nat) := do
  require .dequeueNotReady (b.isReady currentTime = true)
  match b.prioHeap with
  | [] => .error .emptyBuffer
  | m :: rest =>
    let futureTime := currentTime + recycleLatency
    return ({ b with prioHeap := push { m with lastEnqueueTime := futureTime } rest }, futureTime)

def stallInsert (addr : Nat) (m : Message) : List (Nat × List Message) → List (Nat × List Message)
  | [] => [(addr, [m])]
  | (a, l) :: rest =>
    if addr < a then (addr, [m]) :: (a, l) :: rest
    else if addr = a then (a, l ++ [m]) :: rest
    else (a, l) :: stallInsert addr m rest

/-- `MessageBuffer::stallMessage`, `addr` being the number of a line. -/
def stallMessage (b : MessageBuffer) (addr currentTime : Nat) : Except Fault MessageBuffer := do
  let (b, m) ← b.dequeue currentTime false
  return { b with
    stallMsgMap := stallInsert addr m b.stallMsgMap
    stallMapSize := b.stallMapSize + 1 }

def reanalyzeList (b : MessageBuffer) (lt : List Message) (schdTick : Nat) : MessageBuffer :=
  lt.foldl (fun b m =>
    { b with
      prioHeap := push { m with lastEnqueueTime := schdTick, msgCounter := b.msgCounter + 1 }
        b.prioHeap
      msgCounter := b.msgCounter + 1 }) b

def reanalyzeMessages (b : MessageBuffer) (addr currentTime : Nat) :
    Except Fault MessageBuffer := do
  let l ← orFail .noStalledMessage (b.stallMsgMap.lookup addr)
  require .stallMapSize (0 ≤ b.stallMapSize - l.length)
  let b := reanalyzeList { b with stallMapSize := b.stallMapSize - l.length } l currentTime
  return { b with stallMsgMap := b.stallMsgMap.filter (fun e => e.1 ≠ addr) }

def reanalyzeAllMessages (b : MessageBuffer) (currentTime : Nat) : Except Fault MessageBuffer := do
  let b ← b.stallMsgMap.foldlM (fun (b : MessageBuffer) e => do
    require .stallMapSize (0 ≤ b.stallMapSize - e.2.length)
    return reanalyzeList { b with stallMapSize := b.stallMapSize - e.2.length } e.2 currentTime) b
  return { b with stallMsgMap := [] }

end MessageBuffer

end NocSwap
