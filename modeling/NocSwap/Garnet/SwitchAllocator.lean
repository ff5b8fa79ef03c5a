import NocSwap.Garnet.Run

/-!
# The matrices of the switch allocator

`m_port_requests` and `m_vc_winners`, filled by the first round of `SwitchAllocator::wakeup` and
read by the second; the winners are not cleared.
-/

namespace NocSwap

structure SwitchAllocator where
  portRequests : Nat → Nat → Bool
  vcWinners : Nat → Nat → Nat

structure Grant where
  outport : Nat
  inport : Nat
  invc : Nat
  deriving DecidableEq

namespace SwitchAllocator

def init : SwitchAllocator := ⟨fun _ _ => false, fun _ _ => 0⟩

@[simps]
def request (a : SwitchAllocator) (outport inport invc : Nat) : SwitchAllocator where
  portRequests := set2 a.portRequests outport inport true
  vcWinners := set2 a.vcWinners outport inport invc

@[simps]
def removeRequest (a : SwitchAllocator) (outport inport : Nat) : SwitchAllocator where
  portRequests := set2 a.portRequests outport inport false
  vcWinners := a.vcWinners

variable (P : Params)

/-- `SwitchAllocator::arbitrate_inports`. -/
def arbitrateInports (r : Nat) (a : SwitchAllocator) (s : Net) :
    Except Fault (SwitchAllocator × Net) :=
  (P.inports r).zipIdx.foldlM (fun acc e => do
    let request ← findRequest P acc.2 r e.1.link P.numVcs ((acc.2.router r).roundRobinInvc e.2)
    match request with
    | none => return acc
    | some q => return (acc.1.request q.1 e.2 q.2, acc.2.advanceInvc P r e.2)) (a, s)

/-- The walk of `arbitrate_outports`, with `itr` ports to go: the first with a request for
`outport`. -/
def findWinner (a : SwitchAllocator) (outport numInports : Nat) : Nat → Nat → Option Nat
  | 0, _ => none
  | itr + 1, inport =>
    if a.portRequests outport inport then some inport
    else findWinner a outport numInports itr (rrNext numInports inport)

structure Round where
  grants : List Grant
  alloc : SwitchAllocator
  net : Net

def grantOutport (r : Nat) (x : Round) (outport : Nat) : Except Fault Round :=
  let numInports := (P.inports r).length
  match x.alloc.findWinner outport numInports numInports
      ((x.net.router r).roundRobinInport outport) with
  | none => return x
  | some inport => do
    let invc := x.alloc.vcWinners outport inport
    let s ← grant P r inport invc outport x.net
    return ⟨⟨outport, inport, invc⟩ :: x.grants, x.alloc.removeRequest outport inport, s⟩

/-- `SwitchAllocator::arbitrate_outports`. -/
def arbitrateOutports (r : Nat) (a : SwitchAllocator) (s : Net) : Except Fault Round :=
  (List.range (P.outports r).length).foldlM (grantOutport P r) ⟨[], a, s⟩

/-- `SwitchAllocator::clear_request_vector`. -/
@[simps]
def clearRequestVector (r : Nat) (a : SwitchAllocator) : SwitchAllocator where
  portRequests := fun o i =>
    if o < (P.outports r).length ∧ i < (P.inports r).length then false else a.portRequests o i
  vcWinners := a.vcWinners

def wakeup (r : Nat) (a : SwitchAllocator) (s : Net) : Except Fault Round := do
  let acc ← a.arbitrateInports P r s
  let x ← acc.1.arbitrateOutports P r acc.2
  let s ← checkForWakeup P r x.net
  return ⟨x.grants, x.alloc.clearRequestVector P r, s⟩

end SwitchAllocator

/-! ### The network with the matrices -/

/-- What `Router::wakeup` does before its pipeline. -/
def beforePipeline (P : Params) (r : Nat) (rnd : Nat → Nat) (s : Net) : Act :=
  if P.interswap then swapWakeup P r rnd s else return s

/-- What `Router::wakeup` does before it wakes the switch allocator. -/
def beforeAllocation (P : Params) (r : Nat) (rnd : Nat → Nat) (s : Net) : Act := do
  let s ← beforePipeline P r rnd s
  let s ← (P.inports r).zipIdx.foldlM (fun s e => inputUnitWakeup P r e.1 (rnd (e.2 + 2)) s) s
  (P.outports r).foldlM (fun s o => creditArrival o.link s) s

/-- The network with the matrices of its switch allocators. -/
structure NetSA where
  net : Net
  alloc : Nat → SwitchAllocator

namespace NetSA

variable (P : Params)

def init : NetSA := ⟨Net.init P, fun _ => .init⟩

def exec (l : Label) (x : NetSA) : Except Fault NetSA :=
  match l with
  | .wake (.router r) rnd => do
    let s ← beforeAllocation P r rnd (x.net.fire (.router r))
    let y ← (x.alloc r).wakeup P r s
    let s ← crossbarWakeup P r y.net
    return ⟨s, Function.update x.alloc r y.alloc⟩
  | l => do
    let s ← NocSwap.exec P l x.net
    return ⟨s, x.alloc⟩

inductive Reachable : NetSA → Prop
  | init : Reachable (init P)
  | step {x y : NetSA} (l : Label) : Reachable x → Enabled P x.net l → exec P l x = .ok y →
      Reachable y

end NetSA

end NocSwap
