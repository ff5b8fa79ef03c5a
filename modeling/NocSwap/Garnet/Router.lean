import NocSwap.Garnet.Swap

/-!
# The pipeline of a router

`routerWakeup` is `Router::wakeup`: after the swaps come the input units, the output units, the
switch allocator and the crossbar.
-/

namespace NocSwap

variable (P : Params)

/-! ### Input units -/

def receiveFlit (r : Nat) (p : Port) (rnd : Nat) (f : Flit) (s : Net) : Act := do
  let f := f.incrementHops
  require .notHead (f.isHead = true)
  require .vcOutOfRange (f.vc < P.numVcs)
  require .vcNotIdle ((s.vc p.link f.vc).state = .idle)
  let s := s.setVc p.link f.vc ((s.vc p.link f.vc).setActive s.now)
  let outport ← routeCompute P s r f.route rnd
  let o ← outPort P r outport
  require .outdirMismatch (Params.idx2dirn (P.outports r) outport = o.dirn)
  let f := { f with outport := outport, outportDir := o.dirn }
  let s ← makeSwapPtrValid P r p.dirn f s
  if P.routerLatency r = 1 then
    return s.insert (.inputVc p.link f.vc) { f with stage := (.sa, s.now) }
  else do
    require .pipeStages (1 < P.routerLatency r)
    let waitTime := P.routerLatency r - 1
    let s := s.insert (.inputVc p.link f.vc) { f with stage := (.sa, s.now + waitTime) }
    return s.schedule (.router r) (s.now + waitTime)

/-- `InputUnit::wakeup`. -/
def inputUnitWakeup (r : Nat) (p : Port) (rnd : Nat) (s : Net) : Act :=
  match s.buf (.linkBuffer p.link) with
  | [] => return s
  | f :: rest =>
    if f.time ≤ s.now then receiveFlit P r p rnd f (s.setBuf (.linkBuffer p.link) rest)
    else return s

/-! ### Switch allocation -/

/-- `VirtualChannel::need_stage`. -/
def needStage (s : Net) (l : Link) (v : Nat) (stage : FlitStage) (time : Nat) : Except Fault Bool :=
  match s.buf (.inputVc l v) with
  | [] => return false
  | f :: _ =>
    if f.time ≤ time then do
      require .needStage ((s.vc l v).state = .active ∧ (s.vc l v).stateTime ≤ time)
      return f.isStage stage time
    else return false

/-- `OutputUnit::select_free_vc`, without the change of state: the first idle channel of a virtual
network. -/
def selectFreeVc (s : Net) (l : Link) (vnet : Nat) : Option Nat :=
  ((List.range P.vcsPerVnet).map fun i => vnet * P.vcsPerVnet + i).find? fun v =>
    (s.outVc l v).isInState .idle s.now

/-- `OutputUnit::has_free_vc`. -/
def hasFreeVc (s : Net) (l : Link) (vnet : Nat) : Bool := (selectFreeVc P s l vnet).isSome

/-- `SwitchAllocator::get_vnet`. -/
def getVnet (invc : Nat) : Except Fault Nat := do
  require .vnetOutOfRange (invc / P.vcsPerVnet < P.virtualNetworks)
  return invc / P.vcsPerVnet

/-- `SwitchAllocator::send_allowed` with `outvc == -1`. -/
def sendAllowed (s : Net) (r : Nat) (l : Link) (invc outport : Nat) : Except Fault Bool := do
  let vnet ← getVnet P invc
  let o ← outPort P r outport
  if !hasFreeVc P s o.link vnet then return false
  else if !P.isVNetOrdered vnet then return true
  else do
    -- a flit of the same network that came earlier and asks for the same port; the port recorded
    -- in a channel is never set, so no channel is found
    let earlier ← (List.range P.vcsPerVnet).anyM fun i => do
      let v := vnet * P.vcsPerVnet + i
      if ← needStage s l v .sa s.now then
        return decide ((s.vc l v).outputPort = outport ∧
          (s.vc l v).enqueueTime < (s.vc l invc).enqueueTime)
      else return false
    return !earlier

def rrNext (n i : Nat) : Nat := if n ≤ i + 1 then 0 else i + 1

/-- The walk of `arbitrate_inports`: the first channel that may send, with the output port it asks
for. -/
def findRequest (s : Net) (r : Nat) (l : Link) : Nat → Nat → Except Fault (Option (Nat × Nat))
  | 0, _ => return none
  | itr + 1, invc => do
    let ready ← needStage s l invc .sa s.now
    let request ← if ready then do
        let f ← orFail .emptyBuffer (s.buf (.inputVc l invc)).head?
        let allowed ← sendAllowed P s r l invc f.outport
        pure (if allowed then some (f.outport, invc) else none)
      else pure none
    match request with
    | some q => return some q
    | none => findRequest s r l itr (rrNext P.numVcs invc)

abbrev Requests := List (Nat × Nat × Nat)

def Net.advanceInvc (s : Net) (r i : Nat) : Net :=
  s.setRouter r { s.router r with
    roundRobinInvc := Function.update (s.router r).roundRobinInvc i
      (rrNext P.numVcs ((s.router r).roundRobinInvc i)) }

/-- `SwitchAllocator::arbitrate_inports`. -/
def arbitrateInports (r : Nat) (s : Net) : Except Fault (Net × Requests) :=
  (P.inports r).zipIdx.foldlM (fun (acc : Net × Requests) e => do
    let (s, reqs) := acc
    let request ← findRequest P s r e.1.link P.numVcs ((s.router r).roundRobinInvc e.2)
    match request with
    | none => return (s, reqs)
    | some (outport, invc) => return (s.advanceInvc P r e.2, (outport, e.2, invc) :: reqs)) (s, [])

/-- The walk of `arbitrate_outports`: the first input port that asks for `outport`, with its
channel. -/
def findGrant (reqs : Requests) (outport numInports : Nat) : Nat → Nat → Option (Nat × Nat)
  | 0, _ => none
  | itr + 1, inport =>
    match reqs.find? fun q => decide (q.1 = outport ∧ q.2.1 = inport) with
    | some q => some (inport, q.2.2)
    | none => findGrant reqs outport numInports itr (rrNext numInports inport)

/-- `InputUnit::increment_credit`. -/
def Net.sendCredit (s : Net) (l : Link) (v : Nat) (free : Bool) : Net :=
  (s.insertCredit (.queue l) ⟨v, free, s.now⟩).schedule (.creditLink l) (s.now + 1)

def clearRoutedSwap (r : Nat) (f : Flit) (s : Net) : Except Fault (Flit × Net) :=
  if P.interswap && f.routedSwap then do
    require .grantIsSwap (P.noIsSwap = 0 → (s.router r).isSwap = true)
    let s := s.setRouter r { s.router r with isSwap := false }
    require .grantSendRoutedSwap ((s.router r).sendRoutedSwap = false)
    return ({ f with routedSwap := false }, s)
  else return (f, s)

def moveGrantedPtr (r inport invc : Nat) (s : Net) : Act :=
  if P.interswap && decide ((s.router r).swapPtr.inport = inport ∧ (s.router r).swapPtr.vcid = invc)
  then movSwapPtr P r s
  else return s

/-- The end of a grant: channel `invc` is freed if the flit closed its packet, and a credit is sent
back. -/
def releaseVc (l : Link) (invc : Nat) (f : Flit) (s : Net) : Act :=
  if f.isTail then do
    require .grantVcReady (flitReady (s.buf (.inputVc l invc)) s.now = false)
    let s := s.setVc l invc ((s.vc l invc).setIdle s.now)
    return s.sendCredit l invc true
  else return s.sendCredit l invc false

/-- The body of `SwitchAllocator::arbitrate_outports` for the winner `(inport, invc)` of an output
port. -/
def grant (r inport invc outport : Nat) (s : Net) : Act := do
  let (p, v) ← inVc P r inport invc
  let o ← outPort P r outport
  require .outvcSet ((s.vc p.link v).outputVc = -1)
  let vnet ← getVnet P v
  let outvc ← orFail .noFreeVc (selectFreeVc P s o.link vnet)
  let s := s.setOutVc o.link outvc ((s.outVc o.link outvc).setState .active s.now)
  let f ← orFail .emptyBuffer (s.buf (.inputVc p.link v)).head?
  let (f, s) ← clearRoutedSwap P r f s
  let s := s.setBuf (.inputVc p.link v) (s.buf (.inputVc p.link v)).tail
  let s ← moveGrantedPtr P r inport invc s
  let out ← (s.outVc o.link outvc).decrementCredit
  let s := s.setOutVc o.link outvc out
  let f := { f with outport := outport, outportDir := o.dirn, vc := outvc, stage := (.st, s.now) }
  let s := s.insert (.switchBuffer r inport) f
  let s ← releaseVc p.link v f s
  return s.setRouter r { s.router r with
    roundRobinInport := Function.update (s.router r).roundRobinInport outport
      (rrNext (P.inports r).length ((s.router r).roundRobinInport outport)) }

/-- `SwitchAllocator::arbitrate_outports`. -/
def arbitrateOutports (r : Nat) (reqs : Requests) (s : Net) : Act :=
  (List.range (P.outports r).length).foldlM (fun s outport =>
    match findGrant reqs outport (P.inports r).length (P.inports r).length
        ((s.router r).roundRobinInport outport) with
    | some (inport, invc) => grant P r inport invc outport s
    | none => return s) s

/-- `SwitchAllocator::check_for_wakeup`. -/
def checkForWakeup (r : Nat) (s : Net) : Act := do
  let again ← (P.inports r).anyM fun p =>
    (List.range P.numVcs).anyM fun v => needStage s p.link v .sa (s.now + 1)
  return if again then s.schedule (.router r) (s.now + 1) else s

/-- `SwitchAllocator::wakeup`. -/
def switchAllocatorWakeup (r : Nat) (s : Net) : Act := do
  let (s, reqs) ← arbitrateInports P r s
  let s ← arbitrateOutports P r reqs s
  checkForWakeup P r s

/-! ### The crossbar -/

def crossbarPort (r inport : Nat) (s : Net) : Act :=
  match s.buf (.switchBuffer r inport) with
  | [] => return s
  | f :: rest =>
    if f.time ≤ s.now ∧ f.isStage .st s.now = true then do
      let o ← outPort P r f.outport
      let s := s.insert (.srcQueue o.link)
        { f with stage := (.lt, s.now + 1), time := s.now + 1 }
      let s := s.schedule (.link o.link) (s.now + 1)
      return s.setBuf (.switchBuffer r inport) rest
    else return s

/-- `CrossbarSwitch::wakeup`. -/
def crossbarWakeup (r : Nat) (s : Net) : Act :=
  (List.range (P.inports r).length).foldlM (fun s inport => crossbarPort P r inport s) s

/-- The part of `Router::wakeup` that follows the swaps. -/
def pipelineWakeup (r : Nat) (rnd : Nat → Nat) (s : Net) : Act := do
  let s ← (P.inports r).zipIdx.foldlM (fun s e => inputUnitWakeup P r e.1 (rnd (e.2 + 2)) s) s
  let s ← (P.outports r).foldlM (fun s o => creditArrival o.link s) s
  let s ← switchAllocatorWakeup P r s
  crossbarWakeup P r s

/-- `Router::wakeup`. -/
def routerWakeup (r : Nat) (rnd : Nat → Nat) (s : Net) : Act :=
  if P.interswap then do
    let s ← swapWakeup P r rnd s
    pipelineWakeup P r rnd s
  else pipelineWakeup P r rnd s

end NocSwap
