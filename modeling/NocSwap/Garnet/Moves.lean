import Mathlib.Logic.Relation
import NocSwap.Garnet.Run
import NocSwap.Ruby.Correct.MessageBuffer

/-!
# The moves of the network

What a wakeup does, as moves of flits, credits and registers that change together.
-/

namespace NocSwap

open Function

variable (P : Params)

/-! ### Values after a move -/

/-- The pointer after a flit bound for `out` has arrived in channel `vc` of the port of direction
`dirn`. -/
def arrivePtr (r : Nat) (dirn out : PortDirection) (vc : Nat) (sp : SwapPtr) : SwapPtr :=
  if sp.valid then sp
  else if dirn.isMesh && out.isMesh then ⟨true, Params.dirn2idx (P.inports r) dirn, vc, dirn⟩
  else sp

def arrivedFlit (s : Net) (r : Nat) (f : Flit) (outport : Nat) (o : Port) : Flit :=
  { f.incrementHops with
    outport := outport
    outportDir := o.dirn
    stage := (.sa, s.now + (P.routerLatency r - 1)) }

def swappedFlit (r : Nat) (f : Flit) (outport v : Nat) : Flit :=
  { f with outport := outport, outportDir := Params.idx2dirn (P.outports r) outport, vc := v }

def grantedFlit (s : Net) (f : Flit) (outport outvc : Nat) (o : Port) : Flit :=
  { f with
    routedSwap := if P.interswap && f.routedSwap then false else f.routedSwap
    outport := outport
    outportDir := o.dirn
    vc := outvc
    stage := (.st, s.now) }

def OutVcState.credited (o : OutVcState) (c : Credit) (time : Nat) : OutVcState :=
  let o := { o with creditCount := o.creditCount + 1 }
  if c.isFreeSignal then o.setState .idle time else o

def OutVcState.allocated (o : OutVcState) (time : Nat) : OutVcState :=
  { o.setState .active time with creditCount := o.creditCount - 1 }

def swapRegs (s : Net) (u d : Nat) (f : Flit) : Nat → RouterRegs :=
  update
    (if P.noIsSwap = 0 then update s.router d { s.router d with isSwap := true }
      else s.router) u
    { s.router u with
      sendRoutedSwap := false
      isSwap := if f.routedSwap || (s.router u).sendRoutedSwap then false else (s.router u).isSwap }

@[simps]
def Net.transfer (s : Net) (a b : Buf) (rest : List Flit) (f : Flit) : Net :=
  { s with buf := update (update s.buf a rest) b (insertFlit f (s.buf b)) }

/-! ### Conditions of moves -/

structure NiKeeps (now : Nat) (x y : NiRegs) : Prop where
  vcAllocator : (∀ v, x.vcAllocator v < P.vcsPerVnet) → ∀ v, y.vcAllocator v < P.vcsPerVnet
  enqueueTime : y.enqueueTime = x.enqueueTime
  stallCount : y.stallCount = x.stallCount
  sent : y.sent = x.sent
  outNode : ∀ v, (x.outNode v).Keeps now (y.outNode v)

structure RouterKeeps (x y : RouterRegs) : Prop where
  swapPtr : y.swapPtr = x.swapPtr
  isSwap : y.isSwap = x.isSwap
  sendRoutedSwap : y.sendRoutedSwap = x.sendRoutedSwap

/-- The pointer `sp` names channel `v` of port `p` of router `r`. -/
structure PtrAt (r : Nat) (sp : SwapPtr) (p : Port) (v : Nat) : Prop where
  inport_nonneg : 0 ≤ sp.inport
  port : (P.inports r)[sp.inport.toNat]? = some p
  vcid : sp.vcid = v
  vc_lt : v < P.numVcs

/-- The new values of the pointer in its own wakeup: the next of `movSwapPtr`, or a base channel. -/
inductive PtrMove (r : Nat) (s : Net) : SwapPtr → Prop
  | next {sp : SwapPtr} (hv : (s.router r).swapPtr.valid = true)
      (h : SwapPtr.movSwapPtr (ptrView P r s.buf) (s.router r).swapPtr = .ok sp) : PtrMove r s sp
  | make {p : Port} {vnet : Nat} {f : Flit} {fs : List Flit}
      (hv : (s.router r).swapPtr.valid = false) (hp : p ∈ P.inports r) (hd : p.dirn.isMesh = true)
      (hn : vnet < P.virtualNetworks)
      (hf : s.buf (.inputVc p.link (vnet * P.vcsPerVnet)) = f :: fs) :
      PtrMove r s ⟨true, Params.dirn2idx (P.inports r) p.dirn, f.vc, p.dirn⟩

/-- The pointer of router `r` after a grant to `(inport, v)`, with the granted flit gone from `buf`.
-/
def GrantPtr (r inport v : Nat) (buf : Buf → List Flit) (sp sp' : SwapPtr) : Prop :=
  if (P.interswap && decide (sp.inport = inport ∧ sp.vcid = v)) = true then
    SwapPtr.movSwapPtr (ptrView P r buf) sp = .ok sp'
  else sp' = sp

def RoutesTo (r : Nat) (route : RouteInfo) (outport : Nat) : Prop :=
  ∃ rnd freeVc, outportCompute P r route rnd freeVc = .ok outport

/-- The pointer of router `u` names flit `f` in channel `v` of port `p`, and port `q` of router `d`
faces `u`. -/
structure SwapEnds (s : Net) (u d v : Nat) (p q : Port) (f : Flit) (fs : List Flit) : Prop where
  router_lt : u < P.numRouters
  valid : (s.router u).swapPtr.valid = true
  ptr : PtrAt P u (s.router u).swapPtr p v
  head : s.buf (.inputVc p.link v) = f :: fs
  bound : f.outportDir ≠ .Local
  downstream_eq : downstream P f.outportDir u = .ok d
  facing : (P.inports d)[Params.dirn2idx (P.inports d) (getDownstreamDirn f.outportDir)]? = some q
  notSwapped : P.noIsSwap = 0 → (s.router d).isSwap = false

/-- The conditions of a swap of `f` with the flit `g` of the facing channel. -/
structure SwapAt (s : Net) (u d v : Nat) (p q : Port) (f g : Flit) (fs gs : List Flit)
    (fOut gOut : Nat) : Prop extends SwapEnds P s u d v p q f fs where
  head' : s.buf (.inputVc q.link v) = g :: gs
  bound' : g.outportDir ≠ .Local
  routed : P.noIsSwap = 0 → f.routedSwap = true → (s.router u).isSwap = true
  notRouted : P.noIsSwap = 0 → g.routedSwap = false
  route : RoutesTo P d f.route fOut
  route' : RoutesTo P u g.route gOut

/-- The conditions of a grant of output port `o` to channel `v` of input port `i`, with channel `w`
of the output link. -/
structure GrantAt (s : Net) (r i o v w : Nat) (p op : Port) (f : Flit) (fs : List Flit)
    (x : RouterRegs) : Prop where
  router_lt : r < P.numRouters
  port : (P.inports r)[i]? = some p
  outport : (P.outports r)[o]? = some op
  vc_lt : v < P.numVcs
  head : s.buf (.inputVc p.link v) = f :: fs
  ready : f.isStage .sa s.now = true
  outport_eq : f.outport = o
  vnet_lt : v / P.vcsPerVnet < P.virtualNetworks
  free : selectFreeVc P s op.link (v / P.vcsPerVnet) = some w
  credit : 1 ≤ (s.outVc op.link w).creditCount
  routed : P.interswap = true → f.routedSwap = true → P.noIsSwap = 0 → (s.router r).isSwap = true
  ptr : GrantPtr P r i v (update s.buf (.inputVc p.link v) fs) (s.router r).swapPtr
    x.swapPtr
  isSwap : x.isSwap = if P.interswap && f.routedSwap then false else (s.router r).isSwap
  sendRoutedSwap : x.sendRoutedSwap = (s.router r).sendRoutedSwap
  scheduled : s.now + 1 ∈ s.scheduled (.creditLink p.link)

structure ArriveAt (s : Net) (r : Nat) (p : Port) (f : Flit) (fs : List Flit) (outport : Nat)
    (o : Port) : Prop where
  router_lt : r < P.numRouters
  port : p ∈ P.inports r
  head : s.buf (.linkBuffer p.link) = f :: fs
  ready : f.time ≤ s.now
  vc_lt : f.vc < P.numVcs
  idle : (s.vc p.link f.vc).state = .idle
  route : RoutesTo P r f.incrementHops.route outport
  outport_eq : (P.outports r)[outport]? = some o
  scheduled : P.routerLatency r ≠ 1 → 1 < P.routerLatency r ∧
    s.now + (P.routerLatency r - 1) ∈ s.scheduled (.router r)

/-- The conditions under which interface `n` makes a flit for `dest` in channel `vc` out of `m`. -/
structure CreateAt (s : Net) (n vnet vc dest : Nat) (m : Message) : Prop where
  node_lt : n < P.numNodes
  vnet_lt : vnet < P.virtualNetworks
  vc_lt : vc < P.numVcs
  vc_vnet : (∀ v, (s.ni n).vcAllocator v < P.vcsPerVnet) →
    vc / P.vcsPerVnet = if P.injSingleVnet = 0 then vnet else 0
  injSingleVnet : P.injSingleVnet = 0 ∨ P.injSingleVnet = 1
  idle : (s.outVc (.extIn n) vc).isInState .idle s.now = true
  dest_lt : dest < P.numNodes
  destination : m.destination.nodes = [dest]

/-! ### Moves -/

inductive Move (s : Net) : Consumer → Net → Prop
  | stats (c : Consumer) (x : Stats) : Move s c (s.setStats x)
  | sched (c c' : Consumer) (t : Nat) : Move s c (s.schedule c' t)
  | routerRegs (r : Nat) (x : RouterRegs) (h : RouterKeeps (s.router r) x) :
      Move s (.router r) (s.setRouter r x)
  | niRegs (n : Nat) (x : NiRegs) (h : NiKeeps P s.now (s.ni n) x) : Move s (.ni n) (s.setNi n x)
  | link {l : Link} {f : Flit} {fs : List Flit} (hl : l ∈ P.links)
      (hb : s.buf (.srcQueue l) = f :: fs) (ht : f.time ≤ s.now)
      (hs : s.now + P.linkLatency l ∈ s.scheduled (P.linkConsumer l).consumer) :
      Move s (.link l)
        (s.transfer (.srcQueue l) (.linkBuffer l) fs { f with time := s.now + P.linkLatency l })
  | creditLink {l : Link} {c : Credit} {cs : List Credit} (hl : l ∈ P.links)
      (hb : s.credits (.queue l) = c :: cs) (ht : c.time ≤ s.now)
      (hs : s.now + P.creditLatency l ∈ s.scheduled (P.creditConsumer l).consumer) :
      Move s (.creditLink l) { s with
        credits := update (update s.credits (.queue l) cs) (.link l)
          (insertCredit { c with time := s.now + P.creditLatency l } (s.credits (.link l))) }
  | credit {l : Link} {c : Credit} {cs : List Credit} (hl : l ∈ P.links)
      (hb : s.credits (.link l) = c :: cs) (ht : c.time ≤ s.now)
      (hm : (s.outVc l c.vc).creditCount + 1 ≤ (s.outVc l c.vc).maxCreditCount) :
      Move s (P.creditConsumer l).consumer { s with
        credits := update s.credits (.link l) cs
        outVc := set2 s.outVc l c.vc ((s.outVc l c.vc).credited c s.now) }
  | arrive {r : Nat} {p : Port} {f : Flit} {fs : List Flit} {outport : Nat} {o : Port}
      (h : ArriveAt P s r p f fs outport o) :
      Move s (.router r) { s with
        buf := update (update s.buf (.linkBuffer p.link) fs)
          (.inputVc p.link f.vc)
          (insertFlit (arrivedFlit P s r f outport o) (s.buf (.inputVc p.link f.vc)))
        vc := set2 s.vc p.link f.vc ((s.vc p.link f.vc).setActive s.now)
        router := update s.router r { s.router r with
          swapPtr := arrivePtr P r p.dirn o.dirn f.vc (s.router r).swapPtr } }
  | ptr {r : Nat} {sp : SwapPtr} (hr : r < P.numRouters) (hi : P.interswap = true)
      (h : PtrMove P r s sp) : Move s (.router r) (s.setSwapPtr r sp)
  | clearSend (r : Nat) :
      Move s (.router r) (s.setRouter r { s.router r with sendRoutedSwap := false })
  | swap {u d v : Nat} {p q : Port} {f g : Flit} {fs gs : List Flit} {fOut gOut : Nat}
      (hi : P.interswap = true) (h : SwapAt P s u d v p q f g fs gs fOut gOut) :
      Move s (.router u) { s with
        buf := update
          (update s.buf (.inputVc p.link v) (swappedFlit P u g gOut v :: fs))
          (.inputVc q.link v) (swappedFlit P d { f with routedSwap := true } fOut v :: gs)
        router := swapRegs P s u d f
        swapLog := (s.now, f, g) :: s.swapLog }
  | bailOut {u d : Nat} (hi : P.interswap = true) (h0 : P.noIsSwap = 0) (hu : u < P.numRouters)
      (hd : d < P.numRouters) :
      Move s (.router u) ((((s.setRouter u { s.router u with isSwap := false }).setRouter d
        { s.router d with isSwap := false }).clearRouted P u).clearRouted P d)
  | grant {r i o v w : Nat} {p op : Port} {f : Flit} {fs : List Flit} {x : RouterRegs}
      (h : GrantAt P s r i o v w p op f fs x) :
      Move s (.router r) { s with
        buf := update (update s.buf (.inputVc p.link v) fs) (.switchBuffer r i)
          (insertFlit (grantedFlit P s f o w op) (s.buf (.switchBuffer r i)))
        outVc := set2 s.outVc op.link w ((s.outVc op.link w).allocated s.now)
        vc := if f.isTail then set2 s.vc p.link v ((s.vc p.link v).setIdle s.now) else s.vc
        credits := update s.credits (.queue p.link)
          (insertCredit ⟨v, f.isTail, s.now⟩ (s.credits (.queue p.link)))
        router := update s.router r x }
  | cross {r i : Nat} {f : Flit} {fs : List Flit} {o : Port} (hr : r < P.numRouters)
      (hi : i < (P.inports r).length) (hb : s.buf (.switchBuffer r i) = f :: fs)
      (ht : f.time ≤ s.now) (ho : (P.outports r)[f.outport]? = some o)
      (hs : s.now + 1 ∈ s.scheduled (.link o.link)) :
      Move s (.router r) (s.transfer (.switchBuffer r i) (.srcQueue o.link) fs
        { f with stage := (.lt, s.now + 1), time := s.now + 1 })
  | create {n vnet vc dest : Nat} {m : Message} (h : CreateAt P s n vnet vc dest m) :
      Move s (.ni n) (s.createFlit P n vnet vc dest m)
  | send {n vc : Nat} {f : Flit} {fs : List Flit} (hn : n < P.numNodes) (hv : vc < P.numVcs)
      (hb : s.buf (.niOutVc n vc) = f :: fs) (hc : isCandidateVc P s n vc = true)
      (hs : s.now + 1 ∈ s.scheduled (.link (.extIn n))) :
      Move s (.ni n) { s with
        buf := update (update s.buf (.niOutVc n vc) fs) (.srcQueue (.extIn n))
          (insertFlit { f with time := s.now + 1 } (s.buf (.srcQueue (.extIn n))))
        outVc := set2 s.outVc (.extIn n) vc { s.outVc (.extIn n) vc with
          creditCount := (s.outVc (.extIn n) vc).creditCount - 1 }
        ni := update s.ni n { s.ni n with
          enqueueTime := if f.isTail then update (s.ni n).enqueueTime vc infinite
            else (s.ni n).enqueueTime
          sent := { f with time := s.now + 1 } :: (s.ni n).sent } }
  | eject {n : Nat} {f : Flit} {fs : List Flit} (hn : n < P.numNodes)
      (hb : s.buf (.linkBuffer (.extOut n)) = f :: fs) (ht : f.time ≤ s.now) :
      Move s (.ni n) { s with
        buf := update s.buf (.linkBuffer (.extOut n)) fs
        credits := update s.credits (.queue (.extOut n))
          (insertCredit ⟨f.vc, f.isTail, s.now⟩ (s.credits (.queue (.extOut n))))
        consumed := (n, { f with dequeueTime := s.now }) :: s.consumed }
  | stall {n : Nat} {f : Flit} {fs : List Flit} (hn : n < P.numNodes)
      (hb : s.buf (.linkBuffer (.extOut n)) = f :: fs) (ht : f.time ≤ s.now)
      (htail : f.isTail = true) :
      Move s (.ni n) { s with
        buf := update (update s.buf (.linkBuffer (.extOut n)) fs)
          (.stallQueue n) (s.buf (.stallQueue n) ++ [{ f with dequeueTime := s.now }])
        ni := update s.ni n { s.ni n with
          stallCount := update (s.ni n).stallCount f.vnet ((s.ni n).stallCount f.vnet + 1)
          outNode := update (s.ni n).outNode f.vnet
            ((s.ni n).outNode f.vnet).registerDequeueCallback } }
  | unstall {n : Nat} {f : Flit} {fs gs : List Flit} (hn : n < P.numNodes)
      (hb : s.buf (.stallQueue n) = fs ++ f :: gs) :
      Move s (.ni n) { s with
        buf := update s.buf (.stallQueue n) (fs ++ gs)
        credits := update s.credits (.queue (.extOut n))
          (insertCredit ⟨f.vc, true, s.now⟩ (s.credits (.queue (.extOut n))))
        ni := update s.ni n { s.ni n with
          stallCount := update (s.ni n).stallCount f.vnet ((s.ni n).stallCount f.vnet - 1)
          outNode := if (s.ni n).stallCount f.vnet - 1 = 0 then
              update (s.ni n).outNode f.vnet
                ((s.ni n).outNode f.vnet).unregisterDequeueCallback
            else (s.ni n).outNode }
        consumed := (n, f) :: s.consumed }

def Moves (c : Consumer) : Net → Net → Prop := Relation.ReflTransGen fun s s' => Move P s c s'

/-! ### Faults -/

def ptrFaults : List Fault := [.ptrPortOutOfRange, .ptrVcOutOfRange, .bailOutPtr, .ptrDirn, .ptrUnset]

def movSwapPtrFaults : List Fault :=
  [.ptrPortOutOfRange, .ptrVcOutOfRange, .movSwapPtrVcid, .movSwapPtrEmpty, .movSwapPtrDirn,
    .movSwapPtrLocal]

def downstreamFaults : List Fault := [.downstreamDirn, .routerOutOfRange]

def routingFaults : List Fault :=
  [.noRoute, .destinationReached, .customRouting, .freeVcLocal, .freeVcDirn, .portOutOfRange] ++
    downstreamFaults

inductive FaultAt (s : Net) : Fault → Prop
  | routedIsSwap {r v : Nat} {p : Port} {f : Flit} {fs : List Flit} (hr : r < P.numRouters)
      (hp : p ∈ P.inports r) (hv : v < P.numVcs) (hb : s.buf (.inputVc p.link v) = f :: fs)
      (hf : f.routedSwap = true ∨ (s.router r).sendRoutedSwap = true) (h0 : P.noIsSwap = 0)
      (hi : (s.router r).isSwap = false) : FaultAt s .routedIsSwap
  | grantIsSwap {r v : Nat} {p : Port} {f : Flit} {fs : List Flit} (hr : r < P.numRouters)
      (hp : p ∈ P.inports r) (hv : v < P.numVcs) (hb : s.buf (.inputVc p.link v) = f :: fs)
      (hf : f.routedSwap = true) (h0 : P.noIsSwap = 0) (hi : (s.router r).isSwap = false) :
      FaultAt s .grantIsSwap
  | grantSendRoutedSwap {r : Nat} (h : (s.router r).sendRoutedSwap = true) :
      FaultAt s .grantSendRoutedSwap
  | enqueueRouted {u d v : Nat} {p q : Port} {f g : Flit} {fs gs : List Flit}
      (h : SwapEnds P s u d v p q f fs) (hg : s.buf (.inputVc q.link v) = g :: gs)
      (h0 : P.noIsSwap = 0) (hr : g.routedSwap = true) : FaultAt s .enqueueRouted
  | incrementCredit {l : Link} {c : Credit} {cs : List Credit} (hl : l ∈ P.links)
      (hb : s.credits (.link l) = c :: cs)
      (h : (s.outVc l c.vc).maxCreditCount < (s.outVc l c.vc).creditCount + 1) :
      FaultAt s .incrementCredit
  | decrementCredit {l : Link} {v : Nat} (hl : l ∈ P.links) (hv : v < P.numVcs)
      (hs : (s.outVc l v).state = .idle) (h : (s.outVc l v).creditCount < 1) :
      FaultAt s .decrementCredit
  | vcNotIdle {r : Nat} {p : Port} {f : Flit} {fs : List Flit} (hr : r < P.numRouters)
      (hp : p ∈ P.inports r) (hb : s.buf (.linkBuffer p.link) = f :: fs) (hv : f.vc < P.numVcs)
      (h : (s.vc p.link f.vc).state ≠ .idle) : FaultAt s .vcNotIdle
  | needStage {r v : Nat} {p : Port} {f : Flit} {fs : List Flit} (hr : r < P.numRouters)
      (hp : p ∈ P.inports r) (hb : s.buf (.inputVc p.link v) = f :: fs)
      (h : ¬ ((s.vc p.link v).state = .active ∧ (s.vc p.link v).stateTime ≤ s.now)) :
      FaultAt s .needStage
  | outportDir {r v : Nat} {p : Port} {f : Flit} {fs : List Flit} {e : Fault}
      (hr : r < P.numRouters) (hp : p ∈ P.inports r) (hv : v < P.numVcs)
      (hb : s.buf (.inputVc p.link v) = f :: fs)
      (h : Params.idx2dirn (P.outports r) f.outport ≠ f.outportDir ∨ f.outportDir = .Empty)
      (he : e = .outportDirEmpty ∨ e = .outportDirMismatch) : FaultAt s e
  | downstream {r v : Nat} {p : Port} {f : Flit} {fs : List Flit} {e : Fault}
      (hr : r < P.numRouters) (hp : p ∈ P.inports r) (hv : v < P.numVcs)
      (hb : s.buf (.inputVc p.link v) = f :: fs) (hl : f.outportDir ≠ .Local)
      (h : downstream P f.outportDir r = .error e) (he : e ∈ downstreamFaults) : FaultAt s e
  | routing {r rnd : Nat} {b : Buf} {f : Flit} {route : RouteInfo} {s' : Net} {e : Fault}
      (hr : r < P.numRouters) (hf : f ∈ s.buf b) (hd : route.destRouter = f.route.destRouter)
      (h : routeCompute P s' r route rnd = .error e) (he : e ∈ routingFaults) : FaultAt s e
  | ptrInvalid {r : Nat} {e : Fault} (hr : r < P.numRouters)
      (hv : (s.router r).swapPtr.valid = true)
      (h : ∀ p v, PtrAt P r (s.router r).swapPtr p v → (s.router r).swapPtr.inportDirn ≠ p.dirn)
      (he : e ∈ ptrFaults) : FaultAt s e
  | makeSwapPtrVcid {r : Nat} (hr : r < P.numRouters) (hv : (s.router r).swapPtr.valid = false)
      (h : (s.router r).swapPtr.vcid ≠ -1) : FaultAt s .makeSwapPtrVcid
  | movSwapPtr {r : Nat} {buf : Buf → List Flit} {e : Fault} (hr : r < P.numRouters)
      (hp : 0 ≤ (s.router r).swapPtr.inport)
      (h : SwapPtr.movSwapPtr (ptrView P r buf) (s.router r).swapPtr = .error e)
      (he : e ∈ movSwapPtrFaults) : FaultAt s e
  | swapVcid {r v : Nat} {p : Port} {f : Flit} {fs : List Flit} (hr : r < P.numRouters)
      (hp : p ∈ P.inports r) (hv : v < P.numVcs) (hb : s.buf (.inputVc p.link v) = f :: fs)
      (h : f.vc ≠ v) : FaultAt s .swapVcid
  | other {e : Fault} (h : e ∈ [Fault.delayedTicks, .enqueueDelta, .arrivalTime, .fifoOrder,
      .enqueuedEarly, .dequeueNotReady, .emptyBuffer, .noStalledMessage, .stallMapSize, .noRoute,
      .portOutOfRange, .vcOutOfRange, .outdirMismatch, .pipeStages, .notHead, .noIsSwapValue,
      .enqueueLocal, .enqueueVc, .enqueueDirn, .doSwapLocal, .bailOutEmpty, .bailOutLocal,
      .bailOutFacing, .vnetOutOfRange, .outvcSet, .noFreeVc, .grantVcReady, .possibleDeadlock,
      .injSingleVnet, .nodeOutOfRange, .nullNode]) : FaultAt s e

def Fails (c : Consumer) (s : Net) (e : Fault) : Prop := ∃ s', Moves P c s s' ∧ FaultAt P s' e

end NocSwap
