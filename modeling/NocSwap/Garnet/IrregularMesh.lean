import NocSwap.Garnet.MeshTopology

/-!
# The script for irregular meshes

`irregularMesh.makeTopology` creates the links of a mesh for which a file has a `1`.
-/

namespace NocSwap

open List

inductive ScriptError where
  | indexError
  | assertion
  deriving DecidableEq

/-- The numbers of the first line of `conf_file` and the words from the third line on. -/
structure ConfFile where
  rows : Int
  cols : Int
  lines : List (List Int)

namespace IrregularMesh

abbrev Connectivity := List (List Int)

/-! ### Reading the file -/

def entry (topology : Connectivity) (x y : Nat) : Except ScriptError Int := do
  let row ← orFail .indexError topology[x]?
  orFail .indexError row[y]?

def setEntry (topology : Connectivity) (x y : Nat) (word : Int) :
    Except ScriptError Connectivity := do
  let row ← orFail .indexError topology[x]?
  require .indexError (y < row.length)
  return topology.set x (row.set y word)

def readWords (x : Nat) : Nat → List Int → Connectivity → Except ScriptError Connectivity
  | _, [], topology => return topology
  | y, word :: words, topology => do
    let topology ← setEntry topology x y word
    readWords x (y + 1) words topology

def readLines (size : Nat) : Nat → List (List Int) → Connectivity → Except ScriptError Connectivity
  | _, [], topology => return topology
  | x, line :: lines, topology => do
    let topology ← readWords x 0 line topology
    if x + 1 = size ∧ line.length = size then return topology
    else readLines size (x + 1) lines topology

def readTopology (file : ConfFile) : Except ScriptError Connectivity :=
  let size := (file.cols * file.rows).toNat
  readLines size 0 file.lines (List.replicate size (List.replicate size 0))

/-! ### The loops -/

/-- A turn of a loop: the entry that it looks at and the link that it creates if that is `1`. -/
structure Connection where
  x : Nat
  y : Nat
  link : IntLink

variable (numRows numColumns linkLatency : Nat)

def eastConnections : List Connection :=
  (List.range numRows).flatMap fun row =>
    (List.range numColumns).filterMap fun col =>
      if col + 1 < numColumns then
        some ⟨numRows * row + col, numRows * row + (col + 1),
          ⟨col + row * numColumns, (col + 1) + row * numColumns, .East, .West, 1, linkLatency⟩⟩
      else none

def westConnections : List Connection :=
  (List.range numRows).flatMap fun row =>
    (List.range numColumns).filterMap fun col =>
      if col + 1 < numColumns then
        some ⟨numRows * row + (col + 1), numRows * row + col,
          ⟨(col + 1) + row * numColumns, col + row * numColumns, .West, .East, 1, linkLatency⟩⟩
      else none

def northConnections : List Connection :=
  (List.range numColumns).flatMap fun col =>
    (List.range numRows).filterMap fun row =>
      if row + 1 < numRows then
        some ⟨numRows * row + col, numRows * (row + 1) + col,
          ⟨col + row * numColumns, col + (row + 1) * numColumns, .North, .South, 1, linkLatency⟩⟩
      else none

def southConnections : List Connection :=
  (List.range numColumns).flatMap fun col =>
    (List.range numRows).filterMap fun row =>
      if row + 1 < numRows then
        some ⟨numRows * (row + 1) + col, numRows * row + col,
          ⟨col + (row + 1) * numColumns, col + row * numColumns, .South, .North, 1, linkLatency⟩⟩
      else none

def connections : List Connection :=
  eastConnections numRows numColumns linkLatency ++ westConnections numRows numColumns linkLatency ++
  northConnections numRows numColumns linkLatency ++ southConnections numRows numColumns linkLatency

def connect (topology : Connectivity) : List Connection → Except ScriptError (List IntLink)
  | [] => return []
  | c :: cs => do
    let x ← entry topology c.x c.y
    let links ← connect topology cs
    return if x = 1 then c.link :: links else links

theorem map_link_connections : (connections numRows numColumns linkLatency).map Connection.link =
    meshXY.intLinks numRows numColumns linkLatency := by
  simp only [connections, eastConnections, westConnections, northConnections, southConnections,
    MeshScript.intLinks, MeshScript.eastLinks, MeshScript.westLinks, MeshScript.northLinks,
    MeshScript.southLinks, map_append, map_flatMap, map_filterMap, Option.map_if]
  rfl

theorem mem_of_connect {topology : Connectivity} :
    ∀ {cs : List Connection} {links : List IntLink}, connect topology cs = .ok links →
      ∀ l ∈ links, l ∈ cs.map Connection.link := by
  intro cs
  induction cs with
  | nil =>
    intro links h l hl
    obtain rfl := Except.ok.inj h
    exact hl
  | cons c cs ih =>
    intro links h l hl
    obtain ⟨x, -, h⟩ := bind_eq_ok.mp h
    obtain ⟨rest, hrest, h⟩ := bind_eq_ok.mp h
    obtain rfl := Except.ok.inj h
    rw [map_cons, mem_cons]
    split_ifs at hl
    · exact (List.mem_cons.mp hl).imp_right (ih hrest l)
    · exact .inr (ih hrest l hl)

theorem extLinks_lt (controllers : Controllers) (numRouters : Nat)
    (h : 0 < numRows ∧ numRows ≤ numRouters ∧ numRouters / numRows * numRows = numRouters) :
    ∀ l ∈ MeshScript.extLinks linkLatency controllers.toList numRouters,
      l.extNode < controllers.toList.length ∧ l.intNode < numRouters :=
  MeshScript.extLinks_lt _ _ (h.1.trans_le h.2.1)

def makeTopology (controllers : Controllers) (numRouters : Nat) (file : ConfFile) :
    Except ScriptError Topology :=
  if h : 0 < numRows ∧ numRows ≤ numRouters ∧ numRouters / numRows * numRows = numRouters then do
    let topology ← readTopology file
    require .assertion ((numRows : Int) = file.rows)
    require .assertion (((numRouters / numRows : Nat) : Int) = file.cols)
    match hlinks : connect topology (connections numRows (numRouters / numRows) linkLatency) with
    | .error e => .error e
    | .ok links => return {
        nodes := controllers.toList.length
        nodes_gt := controllers.length_gt
        numRouters := numRouters
        extLinks := MeshScript.extLinks linkLatency controllers.toList numRouters
        intLinks := links
        extLinks_lt := extLinks_lt numRows linkLatency controllers numRouters h
        intLinks_lt := fun l hl => by
          have hmem := mem_of_connect hlinks l hl
          rw [map_link_connections] at hmem
          have hlt := meshXY.intLinks_lt _ _ _ l hmem
          rwa [Nat.mul_comm, h.2.2] at hlt }
  else .error .assertion

end IrregularMesh

end NocSwap
