import NocSwap.Garnet.Net

/-!
# Network interfaces

`niWakeup` is `NetworkInterface::wakeup`: messages become flits, one is sent, flits are ejected or
stalled, and a credit is taken.
-/

namespace NocSwap

open Function

variable (P : Params)

/-! ### Injection -/

/-- The walk of `calculateVC`: the first idle channel of `vnet` from the allocator's position on. -/
def findIdleVc (s : Net) (n vnet : Nat) : Nat → Nat → Except Fault (Option Nat × Nat)
  | 0, delta => return (none, delta)
  | itr + 1, delta => do
    let next := if delta + 1 = P.vcsPerVnet then 0 else delta + 1
    let vc := vnet * P.vcsPerVnet + delta
    require .vcOutOfRange (vc < P.numVcs)
    if (s.outVc (.extIn n) vc).isInState .idle s.now then return (some vc, next)
    else findIdleVc s n vnet itr next

def calculateVC (n vnet : Nat) (s : Net) : Except Fault (Option Nat × Net) := do
  let x := s.ni n
  let (vc, delta) ← findIdleVc P s n vnet P.vcsPerVnet (x.vcAllocator vnet)
  let x := { x with vcAllocator := update x.vcAllocator vnet delta }
  match vc with
  | some vc =>
    return (some vc, s.setNi n { x with vcBusyCounter := update x.vcBusyCounter vnet 0 })
  | none => do
    let busy := x.vcBusyCounter vnet + 1
    require .possibleDeadlock (busy ≤ P.deadlockThreshold)
    return (none, s.setNi n { x with vcBusyCounter := update x.vcBusyCounter vnet busy })

def MessageBuffer.setHead (b : MessageBuffer) (m : Message) : MessageBuffer :=
  match b.prioHeap with
  | [] => b
  | _ :: rest => { b with prioHeap := m :: rest }

def Net.setInNode (s : Net) (n vnet : Nat) (b : MessageBuffer) : Net :=
  s.setNi n { s.ni n with inNode := update (s.ni n).inNode vnet b }

def Net.setOutNode (s : Net) (n vnet : Nat) (b : MessageBuffer) : Net :=
  s.setNi n { s.ni n with outNode := update (s.ni n).outNode vnet b }

def makeRoute (n vnet dest : Nat) (d : NetDest) : RouteInfo where
  vnet := vnet
  netDest := d
  srcNi := n
  srcRouter := P.niRouter n
  destNi := dest
  destRouter := P.niRouter dest
  hopsTraversed := -1

def newFlit (s : Net) (n vnet vc dest : Nat) (m : Message) : Flit :=
  { Flit.new s.created 0 vc vnet (makeRoute P n vnet dest m.destination) 1 m s.now with
    srcDelay := s.now - m.time }

def Net.createFlit (s : Net) (n vnet vc dest : Nat) (m : Message) : Net :=
  let s := { s.insert (.niOutVc n vc) (newFlit P s n vnet vc dest m) with created := s.created + 1 }
  let s := s.setNi n
    { s.ni n with enqueueTime := update (s.ni n).enqueueTime vc s.now }
  s.setOutVc (.extIn n) vc ((s.outVc (.extIn n) vc).setState .active s.now)

/-- The body of the loop of `flitisizeMessage` for node `dest`; `false` when no channel is free. -/
def flitisizeDest (n vnet : Nat) (multi : Bool) (dest : Nat) (s : Net) :
    Except Fault (Bool × Net) := do
  let (vc, s) ← calculateVC P n (if P.injSingleVnet = 0 then vnet else 0) s
  require .injSingleVnet (P.injSingleVnet = 0 ∨ P.injSingleVnet = 1)
  match vc with
  | none => return (false, s)
  | some vc => do
    let m ← orFail .emptyBuffer ((s.ni n).inNode vnet).prioHeap.head?
    require .nodeOutOfRange (dest < P.numNodes)
    if multi then
      let personal := NetDest.singleton dest
      let left := { m with destination := m.destination.removeNetDest personal }
      let s := s.setInNode n vnet (((s.ni n).inNode vnet).setHead left)
      return (true, s.createFlit P n vnet vc dest { m with destination := personal })
    else return (true, s.createFlit P n vnet vc dest m)

def flitisizeLoop (n vnet : Nat) (multi : Bool) : List Nat → Net → Except Fault (Bool × Net)
  | [], s => return (true, s)
  | dest :: rest, s => do
    let (done, s) ← flitisizeDest P n vnet multi dest s
    if done then flitisizeLoop n vnet multi rest s else return (false, s)

/-- `NetworkInterface::flitisizeMessage`, for the message at the head of the input buffer. -/
def flitisizeMessage (n vnet : Nat) (m : Message) (s : Net) : Except Fault (Bool × Net) :=
  let dests := m.destination.getAllDest
  flitisizeLoop P n vnet (decide (1 < dests.length)) dests s

/-- The step of `NetworkInterface::wakeup` for the messages of one virtual network. -/
def injectVnet (n vnet : Nat) (s : Net) : Act :=
  if P.hasInNode n vnet && ((s.ni n).inNode vnet).isReady s.now then do
    let m ← orFail .emptyBuffer ((s.ni n).inNode vnet).prioHeap.head?
    let (done, s) ← flitisizeMessage P n vnet m s
    if done then do
      let (b, _) ← ((s.ni n).inNode vnet).dequeue s.now true
      return s.setInNode n vnet b
    else return s
  else return s

/-! ### Sending -/

/-- Whether `scheduleOutputLink` may send from `vc`: in an ordered network no other ready channel is
older. -/
def isCandidateVc (s : Net) (n vc : Nat) : Bool :=
  let vnet := vc / P.vcsPerVnet
  flitReady (s.buf (.niOutVc n vc)) s.now && (s.outVc (.extIn n) vc).hasCredit &&
    (!P.isVNetOrdered vnet ||
      !(List.range P.vcsPerVnet).any fun i =>
        flitReady (s.buf (.niOutVc n (vnet * P.vcsPerVnet + i))) s.now &&
        decide ((s.ni n).enqueueTime (vnet * P.vcsPerVnet + i) < (s.ni n).enqueueTime vc))

def findCandidateVc (s : Net) (n : Nat) : Nat → Nat → Option Nat
  | 0, _ => none
  | itr + 1, vc =>
    let vc := if vc + 1 = P.numVcs then 0 else vc + 1
    if isCandidateVc P s n vc then some vc else findCandidateVc s n itr vc

def sendFlit (n vc : Nat) (s : Net) : Act := do
  require .vcOutOfRange (vc < P.numVcs)
  let o ← (s.outVc (.extIn n) vc).decrementCredit
  let s := s.setOutVc (.extIn n) vc o
  match s.buf (.niOutVc n vc) with
  | [] => .error .emptyBuffer
  | f :: rest =>
    let s := s.setBuf (.niOutVc n vc) rest
    let f := { f with time := s.now + 1 }
    let s := s.insert (.srcQueue (.extIn n)) f
    let s := s.schedule (.link (.extIn n)) (s.now + 1)
    let x := s.ni n
    return s.setNi n { x with
      enqueueTime := if f.isTail then update x.enqueueTime vc infinite else x.enqueueTime
      sent := f :: x.sent }

def scheduleOutputLink (n : Nat) (s : Net) : Act :=
  let vc := (s.ni n).vcRoundRobin
  let s := s.setNi n
    { s.ni n with vcRoundRobin := if vc + 1 = P.numVcs then 0 else vc + 1 }
  match findCandidateVc P s n P.numVcs vc with
  | some vc => sendFlit P n vc s
  | none => return s

def checkReschedule (n : Nat) (s : Net) : Net :=
  if ((List.range P.virtualNetworks).any fun vnet =>
        P.hasInNode n vnet && ((s.ni n).inNode vnet).isReady s.now) ||
      ((List.range P.numVcs).any fun vc => flitReady (s.buf (.niOutVc n vc)) (s.now + 1)) then
    s.schedule (.ni n) (s.now + 1)
  else s

/-! ### Ejection -/

/-- The message of `f` enters its output buffer and a credit that frees the channel goes back. -/
def deliver (n : Nat) (f : Flit) (rnd : Nat) (s : Net) : Act := do
  let (b, _) ← ((s.ni n).outNode f.vnet).enqueue P.rubyFlags f.msg s.now 1 rnd
  let s := s.setOutNode n f.vnet b
  let s := s.insertCredit (.queue (.extOut n)) ⟨f.vc, true, s.now⟩
  let s := s.setStats { s.stats with totalHops := s.stats.totalHops + f.route.hopsTraversed }
  return { s with consumed := (n, f) :: s.consumed }

def slotFree (s : Net) (n vnet : Nat) : Bool := ((s.ni n).outNode vnet).areNSlotsAvailable 1 s.now

/-- `NetworkInterface::checkStallQueue`: eject the first stalled flit that has a slot. -/
def checkStallQueue (n rnd : Nat) (done : List Flit) : List Flit → Net → Except Fault (Bool × Net)
  | [], s => return (false, s)
  | f :: rest, s => do
    require .nullNode (P.hasOutNode n f.vnet = true)
    if slotFree s n f.vnet then do
      let s ← deliver P n f rnd s
      let s := s.setBuf (.stallQueue n) (done.reverse ++ rest)
      let x := s.ni n
      let count := x.stallCount f.vnet - 1
      let s := s.setNi n { x with stallCount := update x.stallCount f.vnet count }
      let s := if count = 0 then
          s.setOutNode n f.vnet ((s.ni n).outNode f.vnet).unregisterDequeueCallback
        else s
      return (true, s)
    else checkStallQueue n rnd (f :: done) rest s

/-- The step of `NetworkInterface::wakeup` for the incoming flit `f`. -/
def ejectFlit (n rnd : Nat) (enqueued : Bool) (f : Flit) (s : Net) : Act := do
  let f := { f with dequeueTime := s.now }
  if f.isTail then do
    require .nullNode (P.hasOutNode n f.vnet = true)
    if !enqueued && slotFree s n f.vnet then deliver P n f rnd s
    else
      let s := s.setBuf (.stallQueue n) (s.buf (.stallQueue n) ++ [f])
      let x := s.ni n
      let s := s.setNi n
        { x with stallCount := update x.stallCount f.vnet (x.stallCount f.vnet + 1) }
      return s.setOutNode n f.vnet ((s.ni n).outNode f.vnet).registerDequeueCallback
  else
    let s := s.insertCredit (.queue (.extOut n)) ⟨f.vc, false, s.now⟩
    let s := s.setStats { s.stats with totalHops := s.stats.totalHops + f.route.hopsTraversed }
    return { s with consumed := (n, f) :: s.consumed }

/-- The step of `NetworkInterface::wakeup` for the incoming link. -/
def niArrival (n rnd : Nat) (enqueued : Bool) (s : Net) : Act :=
  match s.buf (.linkBuffer (.extOut n)) with
  | [] => return s
  | f :: rest =>
    if f.time ≤ s.now then
      ejectFlit P n rnd enqueued f (s.setBuf (.linkBuffer (.extOut n)) rest)
    else return s

/-- `NetworkInterface::wakeup`. -/
def niWakeup (n : Nat) (rnd : Nat → Nat) (s : Net) : Act := do
  let s ← (List.range P.virtualNetworks).foldlM (fun s vnet => injectVnet P n vnet s) s
  let s ← scheduleOutputLink P n s
  let s := checkReschedule P n s
  let (enqueued, s) ← checkStallQueue P n (rnd 0) [] (s.buf (.stallQueue n)) s
  let s ← niArrival P n (rnd 1) enqueued s
  let s ← creditArrival (.extIn n) s
  return if (s.credits (.queue (.extOut n))).isEmpty then s
    else s.schedule (.creditLink (.extOut n)) (s.now + 1)

end NocSwap
