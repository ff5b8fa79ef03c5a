import NocSwap.Ruby.MessageBuffer

/-!
# Flits, credits and the state of virtual channels

The enumerations of `CommonTypes.hh`, flits, credits, and a virtual channel at the two ends of a
link.
-/

namespace NocSwap

inductive PortDirection where
  | Local | North | East | South | West | Unknown | Empty
  deriving DecidableEq

def PortDirection.isMesh : PortDirection → Bool
  | .North | .East | .South | .West => true
  | _ => false

inductive FlitType where
  | head | body | tail | headTail
  deriving DecidableEq

inductive VcStateType where
  | idle | vcAb | active
  deriving DecidableEq

inductive VnetType where
  | ctrl | data | null
  deriving DecidableEq

inductive FlitStage where
  | i | va | sa | st | lt
  deriving DecidableEq

inductive RoutingAlgorithm where
  | table | xy | random | adaptRand | westFirst | adaptWestFirst | deflection | custom
  deriving DecidableEq

inductive WhichToSwap where
  | disableLocalSwap | enableLocalSwap
  deriving DecidableEq

def infinite : Nat := 10000

structure RouteInfo where
  vnet : Nat
  netDest : NetDest
  srcNi : Nat
  srcRouter : Nat
  destNi : Nat
  destRouter : Nat
  hopsTraversed : Int
  deriving DecidableEq

/-! ### Flits -/

structure Flit where
  uid : Nat
  id : Nat
  vnet : Nat
  vc : Nat
  routedSwap : Bool
  route : RouteInfo
  size : Nat
  enqueueTime : Nat
  dequeueTime : Nat
  time : Nat
  type : FlitType
  msg : Message
  outport : Nat
  outportDir : PortDirection
  srcDelay : Int
  stage : FlitStage × Nat
  deriving DecidableEq

namespace Flit

def new (uid id vc vnet : Nat) (route : RouteInfo) (size : Nat) (msg : Message) (curTime : Nat) :
    Flit where
  uid := uid
  id := id
  vnet := vnet
  vc := vc
  routedSwap := false
  route := route
  size := size
  enqueueTime := curTime
  dequeueTime := curTime
  time := curTime
  type :=
    if size = 1 then .headTail
    else if id = 0 then .head
    else if id = size - 1 then .tail
    else .body
  msg := msg
  outport := 0
  outportDir := .Empty
  srcDelay := 0
  stage := (.i, curTime)

/-- `flit::is_stage`. -/
def isStage (f : Flit) (stage : FlitStage) (time : Nat) : Bool :=
  decide (stage = f.stage.1 ∧ f.stage.2 ≤ time)

/-- `flit::increment_hops`. -/
def incrementHops (f : Flit) : Flit :=
  { f with route := { f.route with hopsTraversed := f.route.hopsTraversed + 1 } }

def isHead (f : Flit) : Bool := f.type = .head || f.type = .headTail

def isTail (f : Flit) : Bool := f.type = .tail || f.type = .headTail

end Flit

structure Credit where
  vc : Nat
  isFreeSignal : Bool
  time : Nat
  deriving DecidableEq

/-! ### Buffers -/

/-- `flitBuffer::insert`: before the first entry that is `greater`. The heap of the source hands out
its entries in this order as long as no two have the same time and identifier. Those of one message
have different identifiers, and otherwise a queue gets at most one entry in a cycle. -/
def insertFlit (f : Flit) : List Flit → List Flit
  | [] => [f]
  | g :: l =>
    if f.time < g.time ∨ (f.time = g.time ∧ f.id < g.id) then f :: g :: l
    else g :: insertFlit f l

/-- `flitBuffer::insert` for credits, whose identifiers are all `0`: at most one enters a queue in a
cycle. -/
def insertCredit (c : Credit) : List Credit → List Credit
  | [] => [c]
  | g :: l => if c.time < g.time then c :: g :: l else g :: insertCredit c l

/-- `flitBuffer::isReady`. -/
def flitReady (l : List Flit) (curTime : Nat) : Bool :=
  match l with
  | [] => false
  | f :: _ => decide (f.time ≤ curTime)

/-! ### Virtual channels -/

/-- The fields of `VirtualChannel` beside its buffer. -/
structure VcRegs where
  state : VcStateType
  stateTime : Nat
  enqueueTime : Nat
  outputPort : Int
  outputVc : Int
  deriving DecidableEq

namespace VcRegs

def new : VcRegs := ⟨.idle, 0, infinite, -1, -1⟩

/-- `VirtualChannel::set_idle`. -/
def setIdle (_ : VcRegs) (curTime : Nat) : VcRegs := ⟨.idle, curTime, infinite, -1, -1⟩

/-- `VirtualChannel::set_active`. -/
def setActive (v : VcRegs) (curTime : Nat) : VcRegs :=
  { v with state := .active, stateTime := curTime, enqueueTime := curTime }

end VcRegs

structure OutVcState where
  state : VcStateType
  time : Nat
  creditCount : Int
  maxCreditCount : Nat
  deriving DecidableEq

namespace OutVcState

def new (m : Nat) : OutVcState := ⟨.idle, 0, m, m⟩

/-- `OutVcState::has_credit`. -/
def hasCredit (o : OutVcState) : Bool := decide (0 < o.creditCount)

/-- `OutVcState::increment_credit`. -/
def incrementCredit (o : OutVcState) : Except Fault OutVcState := do
  require .incrementCredit (o.creditCount + 1 ≤ o.maxCreditCount)
  return { o with creditCount := o.creditCount + 1 }

/-- `OutVcState::decrement_credit`. -/
def decrementCredit (o : OutVcState) : Except Fault OutVcState := do
  require .decrementCredit (0 ≤ o.creditCount - 1)
  return { o with creditCount := o.creditCount - 1 }

def isInState (o : OutVcState) (state : VcStateType) (requestTime : Nat) : Bool :=
  decide (o.state = state ∧ o.time ≤ requestTime)

def setState (o : OutVcState) (state : VcStateType) (time : Nat) : OutVcState :=
  { o with state := state, time := time }

end OutVcState

end NocSwap
