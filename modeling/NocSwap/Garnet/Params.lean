import NocSwap.Garnet.CommonTypes
import NocSwap.Ruby.Topology

/-!
# The parameters of the network and the mesh they describe

`Params` is what the configuration fixes: the mesh, the interfaces, virtual networks and channels,
latencies, the routing algorithm and the settings of SWAP.
-/

namespace NocSwap

/-- The network links: into the network, out of it, and from a router to its neighbour in a
direction. -/
inductive Link where
  | extIn (ni : Nat)
  | extOut (ni : Nat)
  | int (src : Nat) (dirn : PortDirection)
  deriving DecidableEq

structure BufferParams where
  bufferSize : Nat
  ordered : Bool
  randomization : Bool

structure Params where
  numRows : Nat
  numCols : Nat
  rows_pos : 0 < numRows
  cols_pos : 0 < numCols
  /-- the number of nodes, each with one network interface -/
  numNodes : Nat
  nodes_gt : 1 < numNodes
  niRouter : Nat → Nat
  niRouter_lt : ∀ n, niRouter n < numRows * numCols
  virtualNetworks : Nat
  vcsPerVnet : Nat
  vcs_pos : 0 < vcsPerVnet
  vnetType : Nat → VnetType
  isVNetOrdered : Nat → Bool
  buffersPerDataVc : Nat
  buffersPerCtrlVc : Nat
  dataVc_pos : 0 < buffersPerDataVc
  ctrlVc_pos : 0 < buffersPerCtrlVc
  routerLatency : Nat → Nat
  linkLatency : Link → Nat
  creditLatency : Link → Nat
  routingAlgorithm : RoutingAlgorithm
  interswap : Bool
  whenToSwap : Nat
  when_pos : interswap = true → 0 < whenToSwap
  whichToSwap : WhichToSwap
  /-- the parameter `no_is_swap`; see `Params.noIsSwap` -/
  noIsSwapParam : Nat
  occupancySwap : Nat
  /-- the comparison of `outportNotLocal` with `occupancySwap`, by the number of free channels -/
  occupancyBelow : Nat → Bool
  injSingleVnet : Nat
  deadlockThreshold : Nat
  /-- whether `inNode_ptr[vnet]` and `outNode_ptr[vnet]` are set -/
  hasInNode : Nat → Nat → Bool
  hasOutNode : Nat → Nat → Bool
  inNode : Nat → Nat → BufferParams
  outNode : Nat → Nat → BufferParams
  rubyFlags : MessageBuffer.RubyFlags

structure Port where
  dirn : PortDirection
  link : Link
  deriving DecidableEq

namespace Params

variable (P : Params)

def numRouters : Nat := P.numRows * P.numCols

def numVcs : Nat := P.virtualNetworks * P.vcsPerVnet

/-- `m_no_is_swap`, forced to `1` when packets are injected into their own virtual networks. -/
def noIsSwap : Nat := if P.injSingleVnet = 0 then 1 else P.noIsSwapParam

def getVnetType (vc : Nat) : VnetType := P.vnetType (vc / P.vcsPerVnet)

def maxCredit (vc : Nat) : Nat :=
  if P.getVnetType vc = .data then P.buffersPerDataVc else P.buffersPerCtrlVc

/-! ### The mesh -/

def nbr (r : Nat) : PortDirection → Option Nat
  | .East => if r % P.numCols + 1 < P.numCols then some (r + 1) else none
  | .West => if 0 < r % P.numCols then some (r - 1) else none
  | .North => if r / P.numCols + 1 < P.numRows then some (r + P.numCols) else none
  | .South => if 0 < r / P.numCols then some (r - P.numCols) else none
  | _ => none

def nisOf (r : Nat) : List Nat := (List.range P.numNodes).filter fun n => P.niRouter n = r

end Params

/-- `GarnetNetwork::get_downstreamDirn`; empty for a direction it does not know. -/
def getDownstreamDirn : PortDirection → PortDirection
  | .East => .West
  | .West => .East
  | .North => .South
  | .South => .North
  | _ => .Empty

namespace Params

variable (P : Params)

/-- The directions of the internal ports as `createLinks` makes them, by number of the neighbour. -/
def meshDirns : List PortDirection := [.South, .West, .East, .North]

def inports (r : Nat) : List Port :=
  (P.nisOf r).map (fun n => ⟨.Local, .extIn n⟩) ++
  meshDirns.filterMap fun d => (P.nbr r d).map fun s => ⟨d, .int s (getDownstreamDirn d)⟩

def outports (r : Nat) : List Port :=
  (P.nisOf r).map (fun n => ⟨.Local, .extOut n⟩) ++
  meshDirns.filterMap fun d => (P.nbr r d).map fun _ => ⟨d, .int r d⟩

/-- A map read with `operator[]`: the last port of a direction wins and a missing one gives `0`. -/
def dirn2idx (ports : List Port) (d : PortDirection) : Nat :=
  ports.zipIdx.foldl (fun acc e => if e.1.dirn = d then e.2 else acc) 0

def idx2dirn (ports : List Port) (i : Nat) : PortDirection :=
  match ports[i]? with
  | some p => p.dirn
  | none => .Empty

inductive Sink where
  | router (r : Nat)
  | ni (n : Nat)
  deriving DecidableEq

def linkConsumer : Link → Sink
  | .extIn n => .router (P.niRouter n)
  | .extOut n => .ni n
  | .int r d => .router ((P.nbr r d).getD 0)

def creditConsumer : Link → Sink
  | .extIn n => .ni n
  | .extOut n => .router (P.niRouter n)
  | .int r _ => .router r

/-! ### Routing tables -/

/-- The switches `createLinks` sees: each node as a source and as a destination, and the routers. -/
def numSwitches : Nat := 2 * P.numNodes + P.numRouters

def topologyWeights (i j : Nat) : Nat :=
  let N := P.numNodes
  if i = j then 0
  else if i < N then (if j = 2 * N + P.niRouter i then 1 else Topology.infiniteLatency)
  else if i < 2 * N then Topology.infiniteLatency
  else if N ≤ j ∧ j < 2 * N then
    (if P.niRouter (j - N) = i - 2 * N then 1 else Topology.infiniteLatency)
  else if 2 * N ≤ j ∧ (meshDirns.any fun d => P.nbr (i - 2 * N) d = some (j - 2 * N)) = true then 1
  else Topology.infiniteLatency

def dist : Nat → Nat → Nat :=
  (Topology.shortestPath P.numSwitches P.topologyWeights fun _ _ => -1).dist

def portSwitch : Link → Nat
  | .extOut n => P.numNodes + n
  | .int r d => 2 * P.numNodes + (P.nbr r d).getD 0
  | .extIn n => 2 * P.numNodes + P.niRouter n

/-- `Topology::shortest_path_to_node`: the nodes reached over link `l` of router `r`. -/
def routingTableEntry (r : Nat) (l : Link) : List Nat :=
  (List.range P.numNodes).filter fun d =>
    Topology.linkIsShortestPathToNode P.topologyWeights P.dist (2 * P.numNodes + r) (P.portSwitch l)
      (P.numNodes + d)

def routingTable (r : Nat) : List (List Nat × Nat) :=
  (P.outports r).map fun p => (P.routingTableEntry r p.link, 1)

/-! ### Default settings -/

/-- A mesh with one interface at each router and one virtual network, the options at their defaults.
-/
def mesh (rows cols : Nat) (h : 1 < rows * cols) : Params where
  numRows := rows
  numCols := cols
  rows_pos := Nat.pos_of_mul_pos_right (Nat.zero_lt_of_lt h)
  cols_pos := Nat.pos_of_mul_pos_left (Nat.zero_lt_of_lt h)
  numNodes := rows * cols
  nodes_gt := h
  niRouter := fun n => n % (rows * cols)
  niRouter_lt := fun n => Nat.mod_lt n (Nat.zero_lt_of_lt h)
  virtualNetworks := 1
  vcsPerVnet := 4
  vcs_pos := by decide
  vnetType := fun _ => .null
  isVNetOrdered := fun _ => false
  buffersPerDataVc := 4
  buffersPerCtrlVc := 1
  dataVc_pos := by decide
  ctrlVc_pos := by decide
  routerLatency := fun _ => 1
  linkLatency := fun _ => 1
  creditLatency := fun _ => 1
  routingAlgorithm := .table
  interswap := false
  whenToSwap := 0
  when_pos := fun h => nomatch h
  whichToSwap := .disableLocalSwap
  noIsSwapParam := 0
  occupancySwap := 0
  occupancyBelow := fun _ => false
  injSingleVnet := 0
  deadlockThreshold := 500000
  hasInNode := fun _ _ => true
  hasOutNode := fun _ _ => true
  inNode := fun _ _ => ⟨0, false, false⟩
  outNode := fun _ _ => ⟨0, false, false⟩
  rubyFlags := ⟨false, false⟩

theorem one_lt_row_three : 1 < 1 * 3 := by decide

end Params

end NocSwap
