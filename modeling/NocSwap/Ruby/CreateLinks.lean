import NocSwap.Garnet.CommonTypes
import NocSwap.Ruby.Topology

/-!
# The links and routing tables of a topology

`Topology` holds the external and internal links that a topology script has created.
-/

namespace NocSwap

structure ExtLink where
  extNode : Nat
  intNode : Nat
  weight : Nat
  latency : Nat
  deriving DecidableEq

structure IntLink where
  srcNode : Nat
  dstNode : Nat
  srcOutport : PortDirection
  dstInport : PortDirection
  weight : Nat
  latency : Nat
  deriving DecidableEq

/-- `LinkEntry`, with the two parameters of its link that are read. -/
structure LinkEntry where
  weight : Nat
  latency : Nat
  srcOutportDirn : PortDirection
  dstInportDirn : PortDirection
  deriving DecidableEq

abbrev LinkMap := List ((Nat × Nat) × LinkEntry)

/-- What the constructor of `Topology` is given; the links connect existing nodes and routers. -/
structure Topology where
  nodes : Nat
  nodes_gt : 1 < nodes
  numRouters : Nat
  extLinks : List ExtLink
  intLinks : List IntLink
  extLinks_lt : ∀ l ∈ extLinks, l.extNode < nodes ∧ l.intNode < numRouters
  intLinks_lt : ∀ l ∈ intLinks, l.srcNode < numRouters ∧ l.dstNode < numRouters

namespace Topology

variable (T : Topology)

def entry (n : Nat) : Nat := n

def exit (n : Nat) : Nat := n + T.nodes

def router (r : Nat) : Nat := r + 2 * T.nodes

def addLink (map : LinkMap) (src dest : Nat) (e : LinkEntry) : LinkMap :=
  map.filter (fun x => x.1 ≠ (src, dest)) ++ [((src, dest), e)]

def addExtLink (map : LinkMap) (l : ExtLink) : LinkMap :=
  let e : LinkEntry := ⟨l.weight, l.latency, .Empty, .Empty⟩
  addLink (addLink map (entry l.extNode) (T.router l.intNode) e)
    (T.router l.intNode) (T.exit l.extNode) e

def addIntLink (map : LinkMap) (l : IntLink) : LinkMap :=
  addLink map (T.router l.srcNode) (T.router l.dstNode)
    ⟨l.weight, l.latency, l.srcOutport, l.dstInport⟩

def linkMap : LinkMap := T.intLinks.foldl T.addIntLink (T.extLinks.foldl T.addExtLink [])

def numSwitches : Nat :=
  T.linkMap.foldl (fun m x => max (max m x.1.1) x.1.2) 0 + 1

def weights (i j : Nat) : Nat :=
  match T.linkMap.lookup (i, j) with
  | some e => e.weight
  | none => if i = j then 0 else infiniteLatency

def latencies (i j : Nat) : Int :=
  match T.linkMap.lookup (i, j) with
  | some e => e.latency
  | none => -1

def dist : Nat → Nat → Nat := (shortestPath T.numSwitches T.weights T.latencies).dist

/-- `Topology::shortest_path_to_node`. -/
def shortestPathToNode (src next : Nat) : List Nat :=
  (List.range T.nodes).filter fun d =>
    linkIsShortestPathToNode T.weights T.dist src next (T.exit d)

/-- An output port of `makeLink`, with its entries in the routing table and the weight table. -/
structure OutPort where
  next : Nat
  dirn : PortDirection
  destinations : List Nat
  weight : Nat
  deriving DecidableEq

def outportDirn (src next : Nat) : PortDirection :=
  if next < 2 * T.nodes then .Local
  else
    match T.linkMap.lookup (src, next) with
    | some e => e.srcOutportDirn
    | none => .Empty

def outports (r : Nat) : List OutPort :=
  (List.range T.numSwitches).filterMap fun j =>
    let weight := T.weights (T.router r) j
    if 0 < weight ∧ weight ≠ infiniteLatency then
      some ⟨j, T.outportDirn (T.router r) j, T.shortestPathToNode (T.router r) j, weight⟩
    else none

def routingTable (r : Nat) : List (List Nat × Nat) :=
  (T.outports r).map fun p => (p.destinations, p.weight)

end Topology

end NocSwap
