import Mathlib.Algebra.GroupWithZero.Nat
import Mathlib.Data.List.Range
import NocSwap.Lib.Update

/-!
# Shortest paths over the links of a topology

`Topology::createLinks` relaxes a matrix of link weights until nothing changes, and enters the nodes
that each link leads to on a shortest path.
-/

namespace NocSwap.Topology

def infiniteLatency : Nat := 10000

/-- The matrices that `extend_shortest_path` updates in place. -/
structure PathMatrices where
  dist : Nat → Nat → Nat
  latencies : Nat → Nat → Int
  interSwitches : Nat → Nat → Int

structure RelaxState where
  minimum : Nat
  intermediateSwitch : Option Nat
  interSwitches : Nat → Nat → Int

def relaxStep (dist : Nat → Nat → Nat) (i j : Nat) (s : RelaxState) (k : Nat) : RelaxState :=
  let minimum := min s.minimum (dist i k + dist k j)
  if s.minimum ≠ minimum then
    { minimum := minimum
      intermediateSwitch := some k
      interSwitches := set2 s.interSwitches i j (s.interSwitches i k + s.interSwitches k j + 1) }
  else s

def relaxEntry (nodes : Nat) (s : PathMatrices × Bool) (ij : Nat × Nat) : PathMatrices × Bool :=
  let m := s.1
  let (i, j) := ij
  let r := (List.range nodes).foldl (relaxStep m.dist i j) ⟨m.dist i j, none, m.interSwitches⟩
  if m.dist i j ≠ r.minimum then
    ({ dist := set2 m.dist i j r.minimum
       latencies := match r.intermediateSwitch with
         | some k => set2 m.latencies i j (m.latencies i k + m.latencies k j)
         | none => m.latencies
       interSwitches := r.interSwitches }, true)
  else ({ m with interSwitches := r.interSwitches }, s.2)

def entries (nodes : Nat) : List (Nat × Nat) :=
  (List.range nodes).flatMap fun i => (List.range nodes).map fun j => (i, j)

def pass (nodes : Nat) (m : PathMatrices) : PathMatrices × Bool :=
  (entries nodes).foldl (relaxEntry nodes) (m, false)

/-- `Topology::extend_shortest_path`, with at most `fuel` turns of the `while` loop. -/
def extendShortestPath (nodes : Nat) : Nat → PathMatrices → PathMatrices
  | 0, m => m
  | fuel + 1, m =>
    match pass nodes m with
    | (m', true) => extendShortestPath nodes fuel m'
    | (m', false) => m'

def total (nodes : Nat) (d : Nat → Nat → Nat) : Nat :=
  ((entries nodes).map fun ij => d ij.1 ij.2).sum

/-- `Topology::shortest_path`: the distances for the given link weights and latencies. -/
def shortestPath (nodes : Nat) (weights : Nat → Nat → Nat) (latencies : Nat → Nat → Int) :
    PathMatrices :=
  extendShortestPath nodes (total nodes weights + 1) ⟨weights, latencies, fun _ _ => 0⟩

/-- `Topology::link_is_shortest_path_to_node`. -/
def linkIsShortestPathToNode (weights dist : Nat → Nat → Nat) (src next final : Nat) : Bool :=
  decide (weights src next + dist next final = dist src final)

end NocSwap.Topology
