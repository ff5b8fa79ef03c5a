import Mathlib.Tactic.Simps.Basic
import NocSwap.Garnet.RoutingUnit
import NocSwap.Garnet.SwapPtr

/-!
# The state of the network

`Net` is the state of all routers, links and network interfaces between two events.
-/

namespace NocSwap

open Function

inductive Buf where
  /-- `m_ni_out_vcs[v]` of an interface -/
  | niOutVc (n v : Nat)
  /-- `outFlitQueue` of an interface, or `m_out_buffer` of an output unit -/
  | srcQueue (l : Link)
  /-- `linkBuffer` of a network link -/
  | linkBuffer (l : Link)
  /-- the buffer of channel `v` of the input unit that reads `l` -/
  | inputVc (l : Link) (v : Nat)
  /-- `m_switch_buffer[p]` of the crossbar of a router -/
  | switchBuffer (r p : Nat)
  /-- `m_stall_queue` of an interface -/
  | stallQueue (n : Nat)
  deriving DecidableEq

inductive CreditBuf where
  /-- `creditQueue` of an input unit, or `outCreditQueue` of an interface -/
  | queue (l : Link)
  /-- `linkBuffer` of a credit link -/
  | link (l : Link)
  deriving DecidableEq

inductive Consumer where
  | router (r : Nat)
  | ni (n : Nat)
  | link (l : Link)
  | creditLink (l : Link)
  deriving DecidableEq

def Params.Sink.consumer : Params.Sink → Consumer
  | .router r => .router r
  | .ni n => .ni n

structure RouterRegs where
  swapPtr : SwapPtr
  isSwap : Bool
  sendRoutedSwap : Bool
  roundRobinInvc : Nat → Nat
  roundRobinInport : Nat → Nat

structure NiRegs where
  inNode : Nat → MessageBuffer
  outNode : Nat → MessageBuffer
  vcRoundRobin : Nat
  enqueueTime : Nat → Nat
  vcAllocator : Nat → Nat
  stallCount : Nat → Int
  vcBusyCounter : Nat → Nat
  sent : List Flit

/-- The statistics of swaps and hops. -/
structure Stats where
  totalSwaps : Nat
  totalBailout : Nat
  totalRoutedSwaps : Nat
  totalInitiatedSwaps : Nat
  totalFailedSwaps : Nat
  totalFailedDownstreamEmpty : Nat
  totalFailedDownstreamLocalOutport : Nat
  totalFailedUpstreamEmpty : Nat
  totalFailedUpstreamLocalOutport : Nat
  totalHops : Int

structure Net where
  now : Nat
  buf : Buf → List Flit
  credits : CreditBuf → List Credit
  vc : Link → Nat → VcRegs
  outVc : Link → Nat → OutVcState
  router : Nat → RouterRegs
  ni : Nat → NiRegs
  /-- the cycles at which a wakeup of the consumer is pending -/
  events : Consumer → List Nat
  /-- `m_scheduled_wakeups` -/
  scheduled : Consumer → List Nat
  stats : Stats
  created : Nat
  consumed : List (Nat × Flit)
  swapLog : List (Nat × Flit × Flit)

abbrev Act := Except Fault Net

namespace Net

variable (s : Net)

/-! ### Updates of one field -/

@[simps]
def setBuf (b : Buf) (l : List Flit) : Net := { s with buf := update s.buf b l }

@[simps]
def setCredits (b : CreditBuf) (l : List Credit) : Net :=
  { s with credits := update s.credits b l }

@[simps]
def setVc (l : Link) (v : Nat) (x : VcRegs) : Net :=
  { s with vc := set2 s.vc l v x }

@[simps]
def setOutVc (l : Link) (v : Nat) (x : OutVcState) : Net :=
  { s with outVc := set2 s.outVc l v x }

@[simps]
def setRouter (r : Nat) (x : RouterRegs) : Net :=
  { s with router := update s.router r x }

@[simps]
def setNi (n : Nat) (x : NiRegs) : Net := { s with ni := update s.ni n x }

@[simps]
def setStats (x : Stats) : Net := { s with stats := x }

/-- `Consumer::scheduleEventAbsolute`. -/
@[simps]
def schedule (c : Consumer) (t : Nat) : Net :=
  let fresh := t ∉ s.scheduled c
  { s with
    events := update s.events c (if fresh then t :: s.events c else s.events c)
    scheduled := update s.scheduled c
      ((if fresh then t :: s.scheduled c else s.scheduled c).filter fun x => s.now ≤ x) }

/-- `flitBuffer::insert` into place `b`. -/
def insert (b : Buf) (f : Flit) : Net := s.setBuf b (insertFlit f (s.buf b))

/-- `flitBuffer::insert` of a credit. -/
def insertCredit (b : CreditBuf) (c : Credit) : Net :=
  s.setCredits b (NocSwap.insertCredit c (s.credits b))

def init (P : Params) : Net where
  now := 0
  buf := fun _ => []
  credits := fun _ => []
  vc := fun _ _ => .new
  outVc := fun _ v => .new (P.maxCredit v)
  router := fun _ => ⟨.new, false, false, fun _ => 0, fun _ => 0⟩
  ni := fun n =>
    { inNode := fun v =>
        .new (P.inNode n v).bufferSize (P.inNode n v).ordered (P.inNode n v).randomization
      outNode := fun v =>
        .new (P.outNode n v).bufferSize (P.outNode n v).ordered (P.outNode n v).randomization
      vcRoundRobin := 0
      enqueueTime := fun _ => infinite
      vcAllocator := fun _ => 0
      stallCount := fun _ => 0
      vcBusyCounter := fun _ => 0
      sent := [] }
  events := fun _ => []
  scheduled := fun _ => []
  stats := ⟨0, 0, 0, 0, 0, 0, 0, 0, 0, 0⟩
  created := 0
  consumed := []
  swapLog := []

end Net

/-! ### Links -/

/-- `NetworkLink::wakeup` of a network link. -/
def linkWakeup (P : Params) (l : Link) (s : Net) : Net :=
  match s.buf (.srcQueue l) with
  | [] => s
  | f :: rest =>
    if f.time ≤ s.now then
      let s := s.setBuf (.srcQueue l) rest
      let s := s.insert (.linkBuffer l) { f with time := s.now + P.linkLatency l }
      s.schedule (P.linkConsumer l).consumer (s.now + P.linkLatency l)
    else s

/-- `NetworkLink::wakeup` of a credit link. -/
def creditLinkWakeup (P : Params) (l : Link) (s : Net) : Net :=
  match s.credits (.queue l) with
  | [] => s
  | c :: rest =>
    if c.time ≤ s.now then
      let s := s.setCredits (.queue l) rest
      let s := s.insertCredit (.link l) { c with time := s.now + P.creditLatency l }
      s.schedule (P.creditConsumer l).consumer (s.now + P.creditLatency l)
    else s

/-- `OutputUnit::wakeup` of the unit that drives `l`, and the same step of an interface. -/
def creditArrival (l : Link) (s : Net) : Act :=
  match s.credits (.link l) with
  | [] => return s
  | c :: rest =>
    if c.time ≤ s.now then do
      let s := s.setCredits (.link l) rest
      let o ← (s.outVc l c.vc).incrementCredit
      return s.setOutVc l c.vc (if c.isFreeSignal then o.setState .idle s.now else o)
    else return s

end NocSwap
