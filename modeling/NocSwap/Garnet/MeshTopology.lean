import Mathlib.Algebra.Order.Group.Nat
import NocSwap.Ruby.CreateLinks

/-!
# The mesh scripts

`Mesh_XY.makeTopology` and `Mesh_westfirst.makeTopology` attach the controllers and create the links
of a mesh.
-/

namespace NocSwap

open List

/-- A controller, by its index among the nodes of the network. -/
structure Controller where
  index : Nat
  isDma : Bool
  deriving DecidableEq

/-- The controllers of a system: at least two, with different indices. -/
structure Controllers where
  toList : List Controller
  length_gt : 1 < toList.length
  nodup : (toList.map Controller.index).Nodup
  index_lt : ∀ c ∈ toList, c.index < toList.length

def twoControllers : Controllers where
  toList := [⟨0, false⟩, ⟨1, false⟩]
  length_gt := by decide
  nodup := by decide
  index_lt := by decide

structure MeshScript where
  eastWeight : Nat
  westWeight : Nat
  northWeight : Nat
  southWeight : Nat
  /-- whether `src_outport` and `dst_inport` are given -/
  named : Bool
  /-- whether the remaining controllers must be of type `DMA_Controller` -/
  checksDma : Bool

def meshXY : MeshScript := ⟨1, 1, 1, 1, true, false⟩

def meshWestfirst : MeshScript := ⟨2, 1, 2, 2, false, true⟩

namespace MeshScript

variable (M : MeshScript) (numRows numColumns linkLatency : Nat)

def portName (d : PortDirection) : PortDirection := if M.named then d else .Empty

def eastLinks : List IntLink :=
  (List.range numRows).flatMap fun row =>
    (List.range numColumns).filterMap fun col =>
      if col + 1 < numColumns then
        some ⟨col + row * numColumns, (col + 1) + row * numColumns, M.portName .East,
          M.portName .West, M.eastWeight, linkLatency⟩
      else none

def westLinks : List IntLink :=
  (List.range numRows).flatMap fun row =>
    (List.range numColumns).filterMap fun col =>
      if col + 1 < numColumns then
        some ⟨(col + 1) + row * numColumns, col + row * numColumns, M.portName .West,
          M.portName .East, M.westWeight, linkLatency⟩
      else none

def northLinks : List IntLink :=
  (List.range numColumns).flatMap fun col =>
    (List.range numRows).filterMap fun row =>
      if row + 1 < numRows then
        some ⟨col + row * numColumns, col + (row + 1) * numColumns, M.portName .North,
          M.portName .South, M.northWeight, linkLatency⟩
      else none

def southLinks : List IntLink :=
  (List.range numColumns).flatMap fun col =>
    (List.range numRows).filterMap fun row =>
      if row + 1 < numRows then
        some ⟨col + (row + 1) * numColumns, col + row * numColumns, M.portName .South,
          M.portName .North, M.southWeight, linkLatency⟩
      else none

def intLinks : List IntLink :=
  M.eastLinks numRows numColumns linkLatency ++ M.westLinks numRows numColumns linkLatency ++
  M.northLinks numRows numColumns linkLatency ++ M.southLinks numRows numColumns linkLatency

/-- The router of the `i`-th controller: the remainder is connected to router `0`. -/
def attachedTo (numControllers numRouters i : Nat) : Nat :=
  if i < numControllers - numControllers % numRouters then i % numRouters else 0

def extLinks (controllers : List Controller) (numRouters : Nat) : List ExtLink :=
  controllers.zipIdx.map fun c =>
    ⟨c.1.index, attachedTo controllers.length numRouters c.2, 1, linkLatency⟩

theorem extLinks_lt (controllers : Controllers) {numRouters : Nat} (h : 0 < numRouters) :
    ∀ l ∈ extLinks linkLatency controllers.toList numRouters,
      l.extNode < controllers.toList.length ∧ l.intNode < numRouters := by
  intro l hl
  obtain ⟨c, hc, rfl⟩ := List.mem_map.mp hl
  refine ⟨controllers.index_lt _ (fst_mem_of_mem_zipIdx hc), ?_⟩
  show attachedTo _ _ _ < numRouters
  unfold attachedTo
  split_ifs
  · exact Nat.mod_lt _ h
  · exact h

theorem coords_lt {rows cols row col : Nat} (hr : row < rows) (hc : col < cols) :
    col + row * cols < rows * cols := by
  calc col + row * cols < cols + row * cols := Nat.add_lt_add_right hc _
    _ = (row + 1) * cols := by rw [Nat.add_mul, Nat.one_mul, Nat.add_comm]
    _ ≤ rows * cols := Nat.mul_le_mul_right _ hr

theorem intLinks_lt : ∀ l ∈ M.intLinks numRows numColumns linkLatency,
    l.srcNode < numRows * numColumns ∧ l.dstNode < numRows * numColumns := by
  intro l hl
  simp only [intLinks, eastLinks, westLinks, northLinks, southLinks, mem_append, mem_flatMap,
    mem_filterMap, mem_range, Option.ite_none_right_eq_some, Option.some.injEq] at hl
  rcases hl with ((⟨row, hr, col, hc, hlt, rfl⟩ | ⟨row, hr, col, hc, hlt, rfl⟩) |
    ⟨col, hc, row, hr, hlt, rfl⟩) | ⟨col, hc, row, hr, hlt, rfl⟩
  · exact ⟨coords_lt hr hc, coords_lt hr hlt⟩
  · exact ⟨coords_lt hr hlt, coords_lt hr hc⟩
  · exact ⟨coords_lt hr hc, coords_lt hlt hc⟩
  · exact ⟨coords_lt hlt hc, coords_lt hr hc⟩

def makeTopology (controllers : Controllers) (numRouters : Nat) : Option Topology :=
  let remainder := controllers.toList.length % numRouters
  let remainderNodes := controllers.toList.drop (controllers.toList.length - remainder)
  if h : 0 < numRows ∧ numRows ≤ numRouters ∧
      numRouters / numRows * numRows = numRouters then
    if M.checksDma && !(remainderNodes.all fun c => c.isDma) then none
    else some
      { nodes := controllers.toList.length
        nodes_gt := controllers.length_gt
        numRouters := numRouters
        extLinks := extLinks linkLatency controllers.toList numRouters
        intLinks := M.intLinks numRows (numRouters / numRows) linkLatency
        extLinks_lt := extLinks_lt _ _ (h.1.trans_le h.2.1)
        intLinks_lt := fun l hl => by
          have hlt := M.intLinks_lt _ _ _ l hl
          rwa [Nat.mul_comm, h.2.2] at hlt }
  else none

end MeshScript


end NocSwap
