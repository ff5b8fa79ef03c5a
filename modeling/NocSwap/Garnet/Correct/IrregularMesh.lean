import NocSwap.Garnet.Correct.MeshTopology
import NocSwap.Garnet.IrregularMesh

/-!
# Which entry decides on a link
-/

namespace NocSwap.IrregularMesh

open MeshScript List Nat

/-! ### The file -/

section File

variable {topology : Connectivity} {x : Nat} {line row : List Int}

theorem readWords_eq (hrow : topology[x]? = some row) (hlen : row.length = line.length) :
    readWords x 0 line topology = .ok (topology.set x line) := by
  -- after `y` words the row begins with these and goes on as before
  suffices hloop : ∀ (words done rest : List Int) (topology : Connectivity),
      topology[x]? = some (done ++ rest) → rest.length = words.length →
      readWords x done.length words topology = .ok (topology.set x (done ++ words)) from
    hloop line [] row topology hrow hlen
  intro words
  induction words with
  | nil =>
    intro done rest topology hrow hlen
    rw [length_eq_zero_iff.mp hlen] at hrow
    obtain ⟨hx, heq⟩ := List.getElem?_eq_some_iff.mp hrow
    show Except.ok topology = _
    rw [← heq, set_getElem_self]
  | cons word words ih =>
    intro done rest topology hrow hlen
    cases rest with
    | nil => cases hlen
    | cons old rest =>
      have hx : x < topology.length := (List.getElem?_eq_some_iff.mp hrow).1
      have hstep : setEntry topology x done.length word =
          .ok (topology.set x (done ++ word :: rest)) := by
        simp [setEntry, hrow, orFail, require, bind, Except.bind, pure, Except.pure]
      have hrest := ih (done ++ [word]) rest (topology.set x (done ++ word :: rest))
        (by rw [List.getElem?_set_self hx, append_assoc]; rfl) (Nat.succ.inj hlen)
      rw [length_append, length_singleton, set_set, append_assoc] at hrest
      rw [readWords, hstep]
      exact hrest

theorem readLines_eq {size : Nat} (hsize : 0 < size) {lines : List (List Int)}
    (hlines : lines.length = size) (hline : ∀ line ∈ lines, line.length = size)
    (rest : List (List Int)) :
    readLines size 0 (lines ++ rest) (List.replicate size (List.replicate size 0)) = .ok lines := by
  suffices hloop : ∀ (todo done : List (List Int)) (old : Connectivity), todo ≠ [] →
      (∀ row ∈ old, row.length = size) → (∀ line ∈ todo, line.length = size) →
      old.length = todo.length → (done ++ todo).length = size →
      readLines size done.length (todo ++ rest) (done ++ old) = .ok (done ++ todo) by
    refine hloop lines [] _ ?_ (fun row hrow => ?_) hline ?_ hlines
    · rintro rfl
      exact absurd hlines hsize.ne
    · rw [eq_of_mem_replicate hrow, length_replicate]
    · rw [length_replicate, hlines]
  intro todo
  induction todo with
  | nil => exact fun _ _ h => absurd rfl h
  | cons line todo ih =>
    intro done old _ hold htodo hlen hsize
    cases old with
    | nil => cases hlen
    | cons row old =>
      obtain ⟨hrow, hold⟩ := forall_mem_cons.mp hold
      obtain ⟨hline, htodo⟩ := forall_mem_cons.mp htodo
      have hread : readWords done.length 0 line (done ++ row :: old) = .ok (done ++ line :: old) := by
        have hat : (done ++ row :: old)[done.length]? = some row := by simp
        rw [readWords_eq hat (hrow.trans hline.symm)]
        simp
      rw [cons_append, readLines, hread]
      show (if _ then _ else _) = _
      rw [length_append, length_cons] at hsize
      by_cases hlast : todo = []
      · -- the last row: the loop ends
        subst hlast
        rw [length_nil] at hsize
        rw [if_pos ⟨hsize, hline⟩, length_eq_zero_iff.mp (Nat.succ.inj hlen)]
        rfl
      · have hpos := length_pos_iff.mpr hlast
        rw [if_neg (by omega)]
        have hnext := ih (done ++ [line]) old hlast hold htodo (Nat.succ.inj hlen)
          (by simp only [length_append, length_singleton]; omega)
        simpa using hnext

end File

def matrixLines (size : Nat) (A : Nat → Nat → Int) : List (List Int) :=
  (List.range size).map fun i => (List.range size).map (A i)

theorem entry_matrixLines (size : Nat) (A : Nat → Nat → Int) (x y : Nat) :
    entry (matrixLines size A) x y =
      if x < size ∧ y < size then .ok (A x y) else .error .indexError := by
  by_cases hx : x < size
  · by_cases hy : y < size
    · simp [entry, matrixLines, hx, hy, orFail, bind, Except.bind]
    · simp [entry, matrixLines, hx, hy, orFail, bind, Except.bind]
  · simp [entry, matrixLines, hx, orFail, bind, Except.bind]

def matrixFile (rows cols : Nat) (A : Nat → Nat → Int) (rest : List (List Int)) : ConfFile :=
  ⟨rows, cols, matrixLines (rows * cols) A ++ rest⟩

theorem readTopology_matrixFile {rows cols : Nat} (hrows : 0 < rows) (hcols : 0 < cols)
    (A : Nat → Nat → Int) (rest : List (List Int)) :
    readTopology (matrixFile rows cols A rest) = .ok (matrixLines (rows * cols) A) := by
  have hsize : ((cols : Int) * rows).toNat = rows * cols := by
    rw [← Int.natCast_mul, Int.toNat_natCast, Nat.mul_comm]
  simp only [readTopology, matrixFile, hsize]
  apply readLines_eq (Nat.mul_pos hrows hcols)
  · simp [matrixLines]
  · intro line hline
    obtain ⟨i, -, rfl⟩ := mem_map.mp hline
    simp

def readAt (rows cols i : Nat) : Nat := rows * (i / cols) + i % cols

theorem readAt_coords {rows cols row col : Nat} (h : col < cols) :
    readAt rows cols (col + row * cols) = rows * row + col := by
  rw [readAt, mod_coords h, div_coords h]

theorem connections_eq (rows cols latency : Nat) : connections rows cols latency =
    (meshXY.intLinks rows cols latency).map fun l =>
      ⟨readAt rows cols l.srcNode, readAt rows cols l.dstNode, l⟩ := by
  have hread : ∀ c ∈ connections rows cols latency,
      c = ⟨readAt rows cols c.link.srcNode, readAt rows cols c.link.dstNode, c.link⟩ := by
    intro c hc
    simp only [connections, eastConnections, westConnections, northConnections, southConnections,
      mem_append, mem_flatMap, mem_filterMap, mem_range,
      Option.ite_none_right_eq_some, Option.some.injEq] at hc
    rcases hc with ((⟨row, -, col, hcol, hlt, rfl⟩ | ⟨row, -, col, hcol, hlt, rfl⟩) |
      ⟨col, hcol, row, -, -, rfl⟩) | ⟨col, hcol, row, -, -, rfl⟩
    · simp only [readAt_coords hcol, readAt_coords hlt]
    · simp only [readAt_coords hcol, readAt_coords hlt]
    · simp only [readAt_coords hcol]
    · simp only [readAt_coords hcol]
  rw [← map_link_connections, map_map]
  exact (map_id _).symm.trans (map_congr_left hread)

variable {rows cols latency : Nat} {A : Nat → Nat → Int}

theorem connect_matrixLines (size : Nat) (cs : List Connection) : connect (matrixLines size A) cs =
      if ∀ c ∈ cs, c.x < size ∧ c.y < size then
        .ok ((cs.filter fun c => A c.x c.y = 1).map Connection.link)
      else .error .indexError := by
  induction cs with
  | nil => rfl
  | cons c cs ih =>
    rw [connect, entry_matrixLines, ih]
    simp only [forall_mem_cons]
    by_cases hc : c.x < size ∧ c.y < size
    · rw [if_pos hc]
      by_cases hcs : ∀ c ∈ cs, c.x < size ∧ c.y < size
      · rw [if_pos hcs, if_pos ⟨hc, hcs⟩]
        show Except.ok (if A c.x c.y = 1 then _ else _) = _
        by_cases hone : A c.x c.y = 1
        · simp [hone]
        · simp [hone]
      · rw [if_neg hcs, if_neg fun h => hcs h.2]
        rfl
    · rw [if_neg hc]
      exact (if_neg fun h => hc h.1).symm

/-- The script ends and has created those links of the mesh for which the file has a `1`. -/
def Honours (rows cols latency : Nat) (controllers : Controllers) (A : Nat → Nat → Int)
    (rest : List (List Int)) : Prop :=
  ∃ T, makeTopology rows latency controllers (rows * cols) (matrixFile rows cols A rest) = .ok T ∧
    ∀ l, l ∈ T.intLinks ↔ l ∈ meshXY.intLinks rows cols latency ∧ A l.srcNode l.dstNode = 1

def Agrees (rows cols : Nat) (A : Nat → Nat → Int) : Prop :=
  ∀ a b d, Hop cols a b d → a < rows * cols → b < rows * cols →
    readAt rows cols a < rows * cols ∧ readAt rows cols b < rows * cols ∧
      (A (readAt rows cols a) (readAt rows cols b) = 1 ↔ A a b = 1)

theorem forall_intLinks (latency : Nat) {Q : Nat → Nat → Prop} :
    (∀ l ∈ meshXY.intLinks rows cols latency, Q l.srcNode l.dstNode) ↔
      ∀ a b d, Hop cols a b d → a < rows * cols → b < rows * cols → Q a b := by
  constructor
  · intro h a b d hhop ha hb
    exact h _ (meshXY.mem_intLinks_of_hop latency hhop ha hb)
  · intro h l hl
    obtain ⟨d, hhop, hsrc, hdst, -⟩ := meshXY.mem_intLinks.mp hl
    exact h _ _ d hhop hsrc hdst

theorem map_intLinks_makeTopology (hrows : 0 < rows) (hcols : 0 < cols) (latency : Nat)
    (controllers : Controllers) (A : Nat → Nat → Int) (rest : List (List Int)) :
    Topology.intLinks <$>
        makeTopology rows latency controllers (rows * cols) (matrixFile rows cols A rest) =
      connect (matrixLines (rows * cols) A) (connections rows cols latency) := by
  have hdiv : rows * cols / rows = cols := Nat.mul_div_cancel_left cols hrows
  have hshape : 0 < rows ∧ rows ≤ rows * cols ∧ rows * cols / rows * rows = rows * cols :=
    ⟨hrows, Nat.le_mul_of_pos_right rows hcols, by rw [hdiv, Nat.mul_comm]⟩
  have hlinks : connect (matrixLines (rows * cols) A) (connections rows cols latency) =
      connect (matrixLines (rows * cols) A) (connections rows (rows * cols / rows) latency) := by
    rw [hdiv]
  rw [makeTopology, dif_pos hshape, readTopology_matrixFile hrows hcols, hlinks]
  have hassert : ((rows * cols / rows : Nat) : Int) = (matrixFile rows cols A rest).cols := by
    rw [hdiv]
    rfl
  simp only [bind, Except.bind, require, if_pos hassert]
  rw [if_pos (show (rows : Int) = (matrixFile rows cols A rest).rows from rfl)]
  dsimp only
  split
  · rename_i e he
    rw [he]
    rfl
  · rename_i links he
    exact he.symm

theorem honours_iff_agrees (hrows : 0 < rows) (hcols : 0 < cols) (latency : Nat)
    (controllers : Controllers) (A : Nat → Nat → Int) (rest : List (List Int)) :
    Honours rows cols latency controllers A rest ↔ Agrees rows cols A := by
  have hmap := map_intLinks_makeTopology hrows hcols latency controllers A rest
  rw [connect_matrixLines, connections_eq] at hmap
  simp only [forall_mem_map] at hmap
  have hmem : ∀ l, l ∈ (((meshXY.intLinks rows cols latency).map fun l =>
      (⟨readAt rows cols l.srcNode, readAt rows cols l.dstNode, l⟩ : Connection)).filter
        fun c => A c.x c.y = 1).map Connection.link ↔ l ∈ meshXY.intLinks rows cols latency ∧
      A (readAt rows cols l.srcNode) (readAt rows cols l.dstNode) = 1 := by
    simp [filter_map]
  rw [Agrees, ← forall_intLinks latency]
  constructor
  · rintro ⟨T, hT, hlinks⟩ l hl
    rw [hT] at hmap
    split_ifs at hmap with hrange
    · have hlink := hlinks l
      rw [show T.intLinks = _ from Except.ok.inj hmap, hmem] at hlink
      exact ⟨(hrange l hl).1, (hrange l hl).2, by simpa only [hl, true_and] using hlink⟩
    · exact nomatch hmap
  · intro h
    rw [if_pos fun l hl => ⟨(h l hl).1, (h l hl).2.1⟩] at hmap
    cases hT : makeTopology rows latency controllers (rows * cols) (matrixFile rows cols A rest) with
    | error e =>
      rw [hT] at hmap
      exact nomatch hmap
    | ok T =>
      rw [hT] at hmap
      refine ⟨T, hT, fun l => ?_⟩
      rw [show T.intLinks = _ from Except.ok.inj hmap, hmem]
      exact and_congr_right fun hl => (h l hl).2.2

theorem readAt_self (hshape : rows = 1 ∨ rows = cols) {i : Nat} (hi : i < rows * cols) :
    readAt rows cols i = i := by
  rcases hshape with rfl | rfl
  · rw [Nat.one_mul] at hi
    rw [readAt, div_eq_of_lt hi, mod_eq_of_lt hi, Nat.mul_zero, Nat.zero_add]
  · exact div_add_mod i rows

theorem shape_of_agrees (hrows : 0 < rows) (hcols : 0 < cols)
    (h : ∀ A : Nat → Nat → Int, (∀ i j, A i j = 0 ∨ A i j = 1) → Agrees rows cols A) :
    rows = 1 ∨ rows = cols := by
  by_contra hne
  rw [not_or] at hne
  have htwo : 2 ≤ rows := by omega
  by_cases hone : cols = 1
  · -- in a single column the entry for router `1` lies behind the matrix
    subst hone
    have hread := (h (fun _ _ => 0) (fun _ _ => .inl rfl) 0 1 .North ⟨rfl, rfl⟩ (by omega)
      (by omega)).2.1
    simp [readAt] at hread
  · -- the link to the East from the first router of the second row
    have hsize : cols + 1 < rows * cols := by
      have := Nat.mul_le_mul_right cols htwo
      omega
    have hhop : Hop cols cols (cols + 1) .East := by
      have hlt : 1 < cols := by omega
      constructor
      · rw [add_mod_left, mod_self, mod_eq_of_lt hlt]
      · rw [add_div_left 1 hcols, Nat.div_self hcols, div_eq_of_lt hlt]
    have hagree := (h (fun i j => if i = cols ∧ j = cols + 1 then 1 else 0)
      (fun i j => by split_ifs; exacts [.inr rfl, .inl rfl]) cols (cols + 1) .East hhop
      (by omega) hsize).2.2.mpr (if_pos ⟨rfl, rfl⟩)
    have hread : readAt rows cols cols = cols := by
      by_contra hne
      dsimp only at hagree
      rw [if_neg fun h => hne h.1] at hagree
      exact absurd hagree (by decide)
    rw [readAt, Nat.div_self hcols, mod_self, Nat.mul_one, Nat.add_zero] at hread
    exact hne.2 hread

/-- **The connectivity file.** A file is honoured exactly if the entries looked at agree with those
of the neighbours, and every file exactly if the mesh has one row or is square. -/
theorem makeTopology_honours_iff (rows cols latency : Nat) (hrows : 0 < rows) (hcols : 0 < cols)
    (controllers : Controllers) (rest : List (List Int)) :
    (∀ A, Honours rows cols latency controllers A rest ↔ Agrees rows cols A) ∧
    ((∀ A : Nat → Nat → Int, (∀ i j, A i j = 0 ∨ A i j = 1) →
        Honours rows cols latency controllers A rest) ↔ rows = 1 ∨ rows = cols) := by
  refine ⟨fun A => honours_iff_agrees hrows hcols latency controllers A rest, ?_⟩
  simp only [honours_iff_agrees hrows hcols]
  constructor
  · exact shape_of_agrees hrows hcols
  · intro hshape A _ a b d _ ha hb
    rw [readAt_self hshape ha, readAt_self hshape hb]
    exact ⟨ha, hb, Iff.rfl⟩

/-- A square mesh with all its links. -/
theorem makeTopology_honours_square : Honours 2 2 1 twoControllers (fun _ _ => 1) [] :=
  (makeTopology_honours_iff 2 2 1 (by decide) (by decide) twoControllers []).2.mpr (.inr rfl) _
    fun _ _ => .inr rfl

/-- In two rows of three the entry for `3` and `4` connects `4` and `5`; in three rows of two every
file stops the script. -/
theorem makeTopology_mixes_entries : (makeTopology 2 1 twoControllers 6
        (matrixFile 2 3 (fun i j => if i = 3 ∧ j = 4 then 1 else 0) [])).toOption.map
      Topology.intLinks = some [⟨4, 5, .East, .West, 1, 1⟩] ∧
    error? (makeTopology 3 1 twoControllers 6 (matrixFile 3 2 (fun _ _ => 0) [])) =
      some .indexError := by
  constructor <;> decide +kernel

end NocSwap.IrregularMesh
