import NocSwap.Garnet.Net

/-!
# Swaps

The part of `Router::wakeup` that precedes the pipeline, with the functions it calls.
-/

namespace NocSwap

variable (P : Params)

/-! ### Addressing -/

def inPort (r : Nat) (inport : Int) : Except Fault Port := do
  require .portOutOfRange (0 ≤ inport)
  orFail .portOutOfRange (P.inports r)[inport.toNat]?

def outPort (r outport : Nat) : Except Fault Port := orFail .portOutOfRange (P.outports r)[outport]?

def inVc (r : Nat) (inport vcid : Int) : Except Fault (Port × Nat) := do
  let p ← inPort P r inport
  require .vcOutOfRange (0 ≤ vcid ∧ vcid < P.numVcs)
  return (p, vcid.toNat)

def ptrPort (r : Nat) (s : Net) : Except Fault Port := do
  require .ptrPortOutOfRange (0 ≤ (s.router r).swapPtr.inport)
  orFail .ptrPortOutOfRange (P.inports r)[(s.router r).swapPtr.inport.toNat]?

def ptrVc (r : Nat) (s : Net) : Except Fault (Port × Nat) := do
  let p ← ptrPort P r s
  let vcid := (s.router r).swapPtr.vcid
  require .ptrVcOutOfRange (0 ≤ vcid ∧ vcid < P.numVcs)
  return (p, vcid.toNat)

/-- `GarnetNetwork::get_downstreamId`. -/
def getDownstreamId (dirn : PortDirection) (u : Nat) : Except Fault Int :=
  match dirn with
  | .East => return u + 1
  | .West => return u - 1
  | .North => return u + P.numCols
  | .South => return u - P.numCols
  | _ => .error .downstreamDirn

/-- `GarnetNetwork::get_upstreamId`, which takes `Local` for the router itself. -/
def getUpstreamId (dirn : PortDirection) (d : Nat) : Except Fault Int :=
  match dirn with
  | .East => return d + 1
  | .West => return d - 1
  | .North => return d + P.numCols
  | .South => return d - P.numCols
  | .Local => return d
  | _ => .error .upstreamDirn

def downstream (dirn : PortDirection) (u : Nat) : Except Fault Nat := do
  let d ← getDownstreamId P dirn u
  require .routerOutOfRange (0 ≤ d ∧ d < P.numRouters)
  return d.toNat

/-- `Router::get_numFreeVC` of router `r`, with the assertion of `InputUnit::get_numFreeVC`. -/
def getNumFreeVc (s : Net) (r : Nat) (dirn : PortDirection) : Except Fault Nat := do
  require .freeVcLocal (dirn ≠ .Local)
  let p ← inPort P r (Params.dirn2idx (P.inports r) dirn)
  require .freeVcDirn (dirn = p.dirn)
  return ((List.range P.vcsPerVnet).filter fun v => (s.buf (.inputVc p.link v)).isEmpty).length

/-- `GarnetNetwork::get_downstreamRouter`, without a router for `NULL`. -/
def getDownstreamRouter (dirn : PortDirection) (u : Nat) : Except Fault (Option Nat) := do
  let d ← getDownstreamId P dirn u
  return if d < 0 ∨ (P.numRouters : Int) ≤ d then none else some d.toNat

/-- `RoutingUnit::numFreeVC` of router `r`. -/
def numFreeVc (s : Net) (r : Nat) (dirn : PortDirection) : Except Fault Nat := do
  match ← getDownstreamRouter P dirn r with
  | none => return 0
  | some d =>
    match dirn with
    | .North => getNumFreeVc P s d .South
    | .East => getNumFreeVc P s d .West
    | .West => getNumFreeVc P s d .East
    | .South => getNumFreeVc P s d .North
    | _ => .error .downstreamDirn

def freeVcToward (s : Net) (r : Nat) (dirn : PortDirection) : Except Fault Nat := do
  let d ← downstream P dirn r
  getNumFreeVc P s d (getDownstreamDirn dirn)

/-- `Router::route_compute`. -/
def routeCompute (s : Net) (r : Nat) (route : RouteInfo) (rnd : Nat) : Except Fault Nat :=
  outportCompute P r route rnd (freeVcToward P s r)

/-! ### The swap pointer of a router -/

def ptrView (r : Nat) (buf : Buf → List Flit) : SwapPtr.View where
  dirns := (P.inports r).map fun p => p.dirn
  numVcs := P.numVcs
  whichToSwap := P.whichToSwap
  isEmpty := fun i v =>
    match (P.inports r)[i]? with
    | some p => (buf (.inputVc p.link v)).isEmpty
    | none => true

def Net.setSwapPtr (s : Net) (r : Nat) (sp : SwapPtr) : Net :=
  s.setRouter r { s.router r with swapPtr := sp }

def movSwapPtr (r : Nat) (s : Net) : Act := do
  let sp ← SwapPtr.movSwapPtr (ptrView P r s.buf) (s.router r).swapPtr
  return s.setSwapPtr r sp

/-- `InputUnit::makeSwapPtrValid`, for the input unit of direction `dirn`. -/
def makeSwapPtrValid (r : Nat) (dirn : PortDirection) (f : Flit) (s : Net) : Act :=
  if (s.router r).swapPtr.valid then return s
  else if dirn.isMesh && f.outportDir.isMesh then do
    let sp ← (s.router r).swapPtr.makeSwapPtrValid dirn (Params.dirn2idx (P.inports r) dirn) f.vc
    return s.setSwapPtr r sp
  else return s

def firstBaseVc (s : Net) (l : Link) : Option Flit :=
  (List.range P.virtualNetworks).findSome? fun vnet =>
    (s.buf (.inputVc l (vnet * P.vcsPerVnet))).head?

/-- The first block of `Router::wakeup`: stop at the first flit in a base channel. -/
def validateSwapPtr (r : Nat) (s : Net) : Act :=
  if (s.router r).swapPtr.valid then return s
  else
    match (P.inports r).findSome? fun p =>
      if p.dirn = .Local then none else (firstBaseVc P s p.link).map fun f => (p.dirn, f) with
    | some (dirn, f) => makeSwapPtrValid P r dirn f s
    | none => return s

/-! ### The exchange -/

/-- `Router::outportNotLocal`: whether the swap pointer names a flit bound for a neighbour. -/
def outportNotLocal (r : Nat) (s : Net) : Except Fault (Bool × Net) := do
  let (p, v) ← ptrVc P r s
  let freeVc := ((List.range P.vcsPerVnet).filter fun v => (s.buf (.inputVc p.link v)).isEmpty).length
  if decide (0 < P.occupancySwap) && P.occupancyBelow freeVc then return (false, s)
  else
    match s.buf (.inputVc p.link v) with
    | [] => return (false, s.setStats
        { s.stats with totalFailedUpstreamEmpty := s.stats.totalFailedUpstreamEmpty + 1 })
    | f :: _ => do
      require .outportDirEmpty (f.outportDir ≠ .Empty)
      let o ← outPort P r f.outport
      require .outportDirMismatch (o.dirn = f.outportDir)
      if f.outportDir = .Local then
        return (false, s.setStats { s.stats with
          totalFailedUpstreamLocalOutport := s.stats.totalFailedUpstreamLocalOutport + 1 })
      else return (true, s)

/-- `Router::doSwap`: the flit that router `d` gives up from channel `vcid` of its port `dirn`. -/
def routerDoSwap (d : Nat) (dirn : PortDirection) (vcid : Int) (s : Net) :
    Except Fault (Option Flit × Net) := do
  require .doSwapLocal (dirn ≠ .Local)
  if decide (P.noIsSwap = 0) && (s.router d).isSwap then return (none, s)
  else do
    let (p, v) ← inVc P d (Params.dirn2idx (P.inports d) dirn) vcid
    match s.buf (.inputVc p.link v) with
    | [] => return (none, s.setStats
        { s.stats with totalFailedDownstreamEmpty := s.stats.totalFailedDownstreamEmpty + 1 })
    | g :: rest =>
      -- the counter of flits bound for a local port is named but not incremented
      if g.outportDir = .Local then return (none, s)
      else return (some g, s.setBuf (.inputVc p.link v) rest)

/-- The port that `doSwap_enqueue` puts `f` into: that of `dirn`, or `inportId` for a flit handed
back. -/
def enqueueInport (r : Nat) (f : Flit) (dirn : PortDirection) : Option Int → Except Fault Int
  | none => return Params.dirn2idx (P.inports r) dirn
  | some i => do
    require .enqueueRouted (P.noIsSwap = 0 → f.routedSwap = false)
    require .enqueueDirn (Params.idx2dirn (P.inports r) i.toNat = dirn)
    return i

/-- `Router::doSwap_enqueue`: put a flit at the head of channel `vcid` of router `r`. -/
def doSwapEnqueue (r : Nat) (f : Flit) (dirn : PortDirection) (inportId : Option Int) (vcid : Int)
    (rnd : Nat) (s : Net) : Act := do
  require .enqueueLocal
    (dirn ≠ .Local ∨ (P.whichToSwap = .enableLocalSwap ∧ inportId.isSome = true))
  let outport ← routeCompute P s r f.route rnd
  require .enqueueVc (vcid ≠ -1)
  let inport ← enqueueInport P r f dirn inportId
  let (p, v) ← inVc P r inport vcid
  let f := { f with
    outport := outport
    outportDir := Params.idx2dirn (P.outports r) outport
    vc := v }
  return s.setBuf (.inputVc p.link v) (f :: s.buf (.inputVc p.link v))

/-- `GarnetNetwork::doSwap`: give `f` to the router it is bound for and return the flit handed back.
-/
def doSwap (f : Flit) (u rnd : Nat) (s : Net) : Except Fault (Option Flit × Net) := do
  let d ← downstream P f.outportDir u
  let dirn := getDownstreamDirn f.outportDir
  require .noIsSwapValue (P.noIsSwap = 0 ∨ P.noIsSwap = 1)
  if (P.noIsSwap = 0 → (s.router d).isSwap = false) ∧ (s.router d).swapPtr.valid = true then do
    let vcid := (s.router u).swapPtr.vcid
    require .swapVcid (vcid = f.vc)
    let (g, s) ← routerDoSwap P d dirn vcid s
    match g with
    | none => return (none, s)
    | some g => do
      let s := if P.noIsSwap = 0 then s.setRouter d { s.router d with isSwap := true } else s
      let s ← doSwapEnqueue P d { f with routedSwap := true } dirn none vcid rnd s
      return (some g, s)
  else return (none, s)

def unsetHead : List Flit → List Flit
  | [] => []
  | f :: l => { f with routedSwap := false } :: l

@[simps]
def Net.clearRouted (s : Net) (r : Nat) : Net :=
  { s with buf := fun b =>
      match b with
      | .inputVc l v =>
        if l ∈ (P.inports r).map (fun p => p.link) ∧ v < P.vcsPerVnet then
          unsetHead (s.buf (.inputVc l v))
        else s.buf (.inputVc l v)
      | b => s.buf b }

/-- `GarnetNetwork::bail_out`. -/
def bailOut (u : Nat) (s : Net) : Act := do
  require .bailOutPtr ((s.router u).swapPtr.inport ≠ -1 ∧ (s.router u).swapPtr.vcid ≠ -1)
  let (p, v) ← ptrVc P u s
  let f ← orFail .bailOutEmpty (s.buf (.inputVc p.link v)).head?
  let d ← downstream P f.outportDir u
  let dirn := getDownstreamDirn f.outportDir
  require .bailOutLocal (dirn ≠ .Local)
  let facing ← inPort P d (Params.dirn2idx (P.inports d) dirn)
  require .bailOutFacing
    (((List.range P.vcsPerVnet).all fun v => !(s.buf (.inputVc facing.link v)).isEmpty) = true)
  let s := s.setRouter u { s.router u with isSwap := false }
  let s := s.setRouter d { s.router d with isSwap := false }
  return (s.clearRouted P u).clearRouted P d

/-- `GarnetNetwork::chk_deadlck_symptm`; nothing after its first test is reached. -/
def chkDeadlckSymptm (s : Net) : Bool := decide (s.now % 1000 = 0)

/-- `Router::is_myTurn`. -/
def isMyTurn (r : Nat) (s : Net) : Bool := decide (s.now % (P.whenToSwap * P.numRouters) = r)

def routedSwapCheck (r : Nat) (s : Net) : Except Fault Unit :=
  require .routedIsSwap (P.noIsSwap = 0 → (s.router r).isSwap = true)

def endRoutedSwap (r : Nat) (s : Net) : Act :=
  if (s.router r).sendRoutedSwap then do
    routedSwapCheck P r s
    let s := s.setRouter r { s.router r with sendRoutedSwap := false, isSwap := false }
    return s.setStats { s.stats with totalRoutedSwaps := s.stats.totalRoutedSwaps + 1 }
  else return s

@[simps]
def Net.logSwap (s : Net) (f g : Flit) : Net := { s with swapLog := (s.now, f, g) :: s.swapLog }

def finishSwap (r : Nat) (p : Port) (v : Nat) (f g : Flit) (rnd : Nat) (s : Net) : Act := do
  let s := s.setBuf (.inputVc p.link v) (s.buf (.inputVc p.link v)).tail
  let sp := (s.router r).swapPtr
  let s ← doSwapEnqueue P r g p.dirn (some sp.inport) sp.vcid rnd s
  let s := s.setStats { s.stats with totalSwaps := s.stats.totalSwaps + 1 }
  endRoutedSwap P r (s.logSwap f g)

def failSwap (r : Nat) (s : Net) : Act :=
  let stats := { s.stats with totalFailedSwaps := s.stats.totalFailedSwaps + 1 }
  if (s.router r).sendRoutedSwap then do
    routedSwapCheck P r s
    return (s.setRouter r { s.router r with sendRoutedSwap := false }).setStats stats
  else return s.setStats stats

/-- With the bit `is_swap` in use, bail out when there is a symptom of deadlock. -/
def checkBailOut (r : Nat) (s : Net) : Act :=
  if P.noIsSwap = 0 then
    if chkDeadlckSymptm s then do
      let s ← bailOut P r s
      return s.setStats { s.stats with totalBailout := s.stats.totalBailout + 1 }
    else return s
  else do
    require .noIsSwapValue (P.noIsSwap = 1)
    return s

def markRouted (r : Nat) (f : Flit) (s : Net) : Act :=
  if f.routedSwap then do
    routedSwapCheck P r s
    return s.setRouter r { s.router r with sendRoutedSwap := true }
  else return s

def trySwap (r : Nat) (rnd : Nat → Nat) (s : Net) : Act := do
  let s := s.setStats { s.stats with totalInitiatedSwaps := s.stats.totalInitiatedSwaps + 1 }
  let s ← checkBailOut P r s
  let (p, v) ← ptrVc P r s
  let f ← orFail .emptyBuffer (s.buf (.inputVc p.link v)).head?
  let s ← markRouted P r f s
  let (g, s) ← doSwap P f r (rnd 0) s
  match g with
  | some g => finishSwap P r p v f g (rnd 1) s
  | none => failSwap P r s

def swapTurn (r : Nat) (rnd : Nat → Nat) (s : Net) : Act := do
  let p ← ptrPort P r s
  require .ptrDirn ((s.router r).swapPtr.inportDirn = p.dirn)
  require .ptrUnset ((s.router r).swapPtr.inport ≠ -1 ∧ (s.router r).swapPtr.vcid ≠ -1)
  let (go, s) ← outportNotLocal P r s
  if go then do
    let s ← trySwap P r rnd s
    movSwapPtr P r s
  else movSwapPtr P r s

/-- What `Router::wakeup` does for swaps. -/
def swapWakeup (r : Nat) (rnd : Nat → Nat) (s : Net) : Act := do
  let s ← validateSwapPtr P r s
  if isMyTurn P r s && (s.router r).swapPtr.valid then swapTurn P r rnd s else return s

end NocSwap
