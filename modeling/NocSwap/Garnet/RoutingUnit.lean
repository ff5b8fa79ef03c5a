import NocSwap.Garnet.Params

/-!
# Route computation

`outportCompute` gives the output port of a flit at a router.
-/

namespace NocSwap

/-- `RoutingUnit::lookupRoutingTable`, for a table of destination sets and weights. -/
def lookupRoutingTable (table : List (List Nat × Nat)) (ordered : Bool) (dest : NetDest)
    (rnd : Nat) : Except Fault Nat :=
  let reaches (e : List Nat × Nat) : Bool := dest.nodes.any fun d => d ∈ e.1
  let minWeight := table.foldl
    (fun w e => if reaches e && decide (e.2 ≤ w) then e.2 else w) infinite
  let candidates := (table.zipIdx.filter fun e => reaches e.1 && decide (e.1.2 = minWeight)).map
    fun e => e.2
  let candidate := if ordered then 0 else rnd % candidates.length
  orFail .noRoute candidates[candidate]?

/-- The distances in columns and rows to the destination and whether it lies to the East and to the
North. -/
structure Offset where
  xHops : Nat
  yHops : Nat
  xDirn : Bool
  yDirn : Bool

def offset (numCols my dest : Nat) : Offset where
  xHops := ((dest % numCols : Nat) - (my % numCols : Nat) : Int).natAbs
  yHops := ((dest / numCols : Nat) - (my / numCols : Nat) : Int).natAbs
  xDirn := decide (my % numCols ≤ dest % numCols)
  yDirn := decide (my / numCols ≤ dest / numCols)

namespace Offset

def check (o : Offset) : Except Fault Unit :=
  require .destinationReached (¬ (o.xHops = 0 ∧ o.yHops = 0))

def yOutport (o : Offset) : PortDirection := if o.yDirn then .North else .South

def xOutport (o : Offset) : PortDirection := if o.xDirn then .East else .West

end Offset

/-- The choice of the adaptive algorithms between row and column: more free channels, or random. -/
def moreFree (o : Offset) (rnd : Nat) (freeVc : PortDirection → Except Fault Nat) :
    Except Fault PortDirection := do
  let freeX ← freeVc o.xOutport
  let freeY ← freeVc o.yOutport
  return if freeX > freeY then o.xOutport
    else if freeY > freeX then o.yOutport
    else if rnd % 2 ≠ 0 then o.xOutport else o.yOutport

/-- The direction chosen by `RoutingUnit::outportComputeXY`. -/
def outportComputeXY (o : Offset) : Except Fault PortDirection := do
  o.check
  if o.xHops > 0 then return (if o.xDirn then .East else .West)
  else if o.yHops > 0 then return (if o.yDirn then .North else .South)
  else .error .destinationReached

/-- The direction chosen by `RoutingUnit::outportComputeRandom`. -/
def outportComputeRandom (o : Offset) (rnd : Nat) : Except Fault PortDirection := do
  o.check
  if o.xHops = 0 then return (if o.yDirn then .North else .South)
  else if o.yHops = 0 then return (if o.xDirn then .East else .West)
  else if o.xDirn && o.yDirn then return (if rnd % 2 ≠ 0 then .East else .North)
  else if !o.xDirn && o.yDirn then return (if rnd % 2 ≠ 0 then .West else .North)
  else if !o.xDirn && !o.yDirn then return (if rnd % 2 ≠ 0 then .West else .South)
  else return (if rnd % 2 ≠ 0 then .East else .South)

/-- `RoutingUnit::outportComputeAdaptRand`; its quadrants differ only in the two directions
compared. -/
def outportComputeAdaptRand (o : Offset) (rnd : Nat)
    (freeVc : PortDirection → Except Fault Nat) : Except Fault PortDirection := do
  o.check
  if o.xHops = 0 then return (if o.yDirn then .North else .South)
  else if o.yHops = 0 then return (if o.xDirn then .East else .West)
  else moreFree o rnd freeVc

/-- The direction chosen by `RoutingUnit::outportComputeWestFirst`. -/
def outportComputeWestFirst (o : Offset) (rnd : Nat) : Except Fault PortDirection := do
  o.check
  if o.xHops = 0 then return (if o.yDirn then .North else .South)
  else if o.yHops = 0 then return (if o.xDirn then .East else .West)
  else if !o.xDirn then return .West
  else if o.yDirn then return (if rnd % 2 ≠ 0 then .East else .North)
  else return (if rnd % 2 ≠ 0 then .East else .South)

/-- The direction chosen by `RoutingUnit::outportComputeAdaptWestFirst`. -/
def outportComputeAdaptWestFirst (o : Offset) (rnd : Nat)
    (freeVc : PortDirection → Except Fault Nat) : Except Fault PortDirection := do
  o.check
  if o.xHops = 0 then return (if o.yDirn then .North else .South)
  else if o.yHops = 0 then return (if o.xDirn then .East else .West)
  else if !o.xDirn then return .West
  else moreFree o rnd freeVc

def meshOutport (alg : RoutingAlgorithm) (o : Offset) (rnd : Nat)
    (freeVc : PortDirection → Except Fault Nat) : Option (Except Fault PortDirection) :=
  match alg with
  | .xy => some (outportComputeXY o)
  | .random => some (outportComputeRandom o rnd)
  | .adaptRand => some (outportComputeAdaptRand o rnd freeVc)
  | .westFirst => some (outportComputeWestFirst o rnd)
  | .adaptWestFirst => some (outportComputeAdaptWestFirst o rnd freeVc)
  | .custom => some (.error .customRouting)
  | .table | .deflection => none

/-- `RoutingUnit::outportCompute` at router `r`. -/
def outportCompute (P : Params) (r : Nat) (route : RouteInfo) (rnd : Nat)
    (freeVc : PortDirection → Except Fault Nat) : Except Fault Nat :=
  let fromTable :=
    lookupRoutingTable (P.routingTable r) (P.isVNetOrdered route.vnet) route.netDest rnd
  if route.destRouter = r then fromTable
  else
    match meshOutport P.routingAlgorithm (offset P.numCols r route.destRouter) rnd freeVc with
    | some dirn => do return Params.dirn2idx (P.outports r) (← dirn)
    | none => fromTable

end NocSwap
