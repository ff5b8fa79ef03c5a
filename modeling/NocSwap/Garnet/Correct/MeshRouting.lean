import NocSwap.Garnet.Correct.Exchange
import NocSwap.Garnet.Correct.SwapPartner

/-!
# Route computation and the links of the mesh
-/

namespace NocSwap

open MeshScript Option List

variable {P : Params} {r v dest : Nat} {d : PortDirection}

/-! ### Links -/

def HasLink (P : Params) (latency r : Nat) (d : PortDirection) (v : Nat) : Prop :=
  ∃ l ∈ meshXY.intLinks P.numRows P.numCols latency,
    l.srcNode = r ∧ l.srcOutport = d ∧ l.dstNode = v

theorem hasLink_iff (hr : r < P.numRouters) (latency : Nat) :
    HasLink P latency r d v ↔ P.nbr r d = some v := by
  constructor
  · rintro ⟨l, hl, rfl, rfl, rfl⟩
    obtain ⟨d, hhop, -, hdst, heq⟩ := meshXY.mem_intLinks.mp hl
    have hd : l.srcOutport = d := by rw [heq]; rfl
    rw [hd]
    exact nbr_of_meshHop hdst hhop
  · intro hv
    have hhop : Hop P.numCols r v d := by
      have hc := nbr_coords hv
      cases d <;> simp only [HopCoords, Params.col, Params.row] at hc <;>
        simp only [Hop] <;> omega
    exact ⟨_, meshXY.mem_intLinks_of_hop latency hhop hr (nbr_lt hr hv), rfl, rfl, rfl⟩

theorem outport_of_nbr (hv : P.nbr r d = some v) :
    (P.outports r)[Params.dirn2idx (P.outports r) d]? = some ⟨d, .int r d⟩ := by
  have hmem : (⟨d, .int r d⟩ : Port) ∈ P.outports r := mem_outports.mpr (.inr ⟨d, v, hv, rfl⟩)
  obtain ⟨i, hi⟩ := List.mem_iff_getElem?.mp hmem
  rw [dirn2idx_eq (outports_pairwise P r) hi (nbr_isMesh hv)]
  exact hi

theorem getDownstreamRouter_eq_some (h : getDownstreamId P d r = .ok (v : Int))
    (hv : v < P.numRouters) : getDownstreamRouter P d r = .ok (some v) := by
  simp only [getDownstreamRouter, h, bind, Except.bind, pure, Except.pure]
  rw [if_neg (by omega), Int.toNat_natCast]

theorem getDownstreamRouter_of_nbr (hr : r < P.numRouters) (hv : P.nbr r d = some v) :
    getDownstreamRouter P d r = .ok (some v) :=
  getDownstreamRouter_eq_some (getDownstreamId_of_nbr hv) (nbr_lt hr hv)

theorem getNumFreeVc_of_nbr (hr : r < P.numRouters) (hv : P.nbr r d = some v) (s : Net) :
    getNumFreeVc P s v (getDownstreamDirn d) = .ok ((List.range P.vcsPerVnet).filter
      fun c => (s.buf (.inputVc (.int r d) c)).isEmpty).length := by
  have hloc := mesh_ne_local (getDownstreamDirn_isMesh (nbr_isMesh hv))
  simp [getNumFreeVc, inPort_facing hr hv, require, hloc, bind, Except.bind, pure, Except.pure]

/-- **Every mesh algorithm is minimal and total.** It answers with a port whose link exists and
leads one hop nearer, and the assertions of `get_numFreeVC` hold. -/
theorem meshOutport_follows_link (P : Params) (s : Net) {alg : RoutingAlgorithm}
    (halg : alg ∈ meshAlgorithms) {r dest : Nat} (hr : r < P.numRouters) (hdest : dest < P.numRouters)
    (hne : r ≠ dest) (rnd latency : Nat) :
    (∃ d v, meshOutport alg (offset P.numCols r dest) rnd (freeVcToward P s r) = some (.ok d) ∧
      HasLink P latency r d v ∧
      (P.outports r)[Params.dirn2idx (P.outports r) d]? = some ⟨d, .int r d⟩ ∧
      P.linkConsumer (.int r d) = .router v ∧
      manhattan P v dest + 1 = manhattan P r dest) ∧
    ((offset P.numCols r dest).xHops ≠ 0 → (offset P.numCols r dest).yHops ≠ 0 →
      ∀ d ∈ [(offset P.numCols r dest).xOutport, (offset P.numCols r dest).yOutport],
        ∃ v, getDownstreamRouter P d r = .ok (some v) ∧
          ∃ n, getNumFreeVc P s v (getDownstreamDirn d) = .ok n) := by
  constructor
  · obtain ⟨d, hd⟩ := meshOutport_ok halg hr hdest hne s rnd
    have hmin : Minimal P r dest d := meshOutport_minimal hd rfl
    obtain ⟨v, hv⟩ := nbr_of_minimal hdest hmin
    refine ⟨d, v, hd, (hasLink_iff hr latency).mpr hv, outport_of_nbr hv, ?_,
      manhattan_nearer hv hmin⟩
    simp [Params.linkConsumer, hv]
  · intro hx hy d hd
    -- both directions lead nearer, so there are neighbours
    have hmin : Minimal P r dest d := by
      rcases List.mem_pair.mp hd with rfl | rfl
      · exact minimal_horizontal hx
      · exact minimal_vertical hy
    obtain ⟨v, hv⟩ := nbr_of_minimal hdest hmin
    exact ⟨v, getDownstreamRouter_of_nbr hr hv, _, getNumFreeVc_of_nbr hr hv s⟩

/-- An adaptive algorithm sends a flit from router `0` to `3` of a two-by-two mesh over `1` or `2`.
-/
theorem meshOutport_follows_link_square : ∃ d v, HasLink (.mesh 2 2 (by decide)) 1 0 d v ∧
    manhattan (.mesh 2 2 (by decide)) v 3 + 1 = manhattan (.mesh 2 2 (by decide)) 0 3 := by
  obtain ⟨⟨d, v, -, hlink, -, -, hnear⟩, -⟩ :=
    @meshOutport_follows_link (.mesh 2 2 (by decide)) (Net.init (.mesh 2 2 (by decide))) .adaptRand
      (by decide) 0 3 (by decide) (by decide) (by decide) 0 1
  exact ⟨d, v, hlink, hnear⟩

def RowEnd (P : Params) (r : Nat) : PortDirection → Prop
  | .East => P.col r + 1 = P.numCols ∧ r + 1 < P.numRouters
  | .West => P.col r = 0 ∧ 0 < r
  | _ => False

theorem nbr_of_rowEnd (h : RowEnd P r d) : P.nbr r d = none := by
  cases d with
  | East => exact if_neg fun hlt => absurd h.1 hlt.ne
  | West => exact if_neg fun hpos => absurd h.1 hpos.ne'
  | North | South => exact h.elim
  | Local => rfl
  | Unknown => rfl
  | Empty => rfl

theorem getDownstreamRouter_eq_none {x : Int} (h : getDownstreamId P d r = .ok x) :
    getDownstreamRouter P d r = .ok none ↔ x < 0 ∨ (P.numRouters : Int) ≤ x := by
  simp only [getDownstreamRouter, h, bind, Except.bind, pure, Except.pure, Except.ok.injEq,
    ite_eq_left_iff, reduceCtorEq, imp_false, not_not]

theorem getDownstreamRouter_of_border (hr : r < P.numRouters) (hd : d.isMesh = true)
    (hv : P.nbr r d = none) : getDownstreamRouter P d r = .ok none ↔ ¬ RowEnd P r d := by
  have hcol := col_lt P r
  have hcoords := eq_coords P r
  cases d with
  | East =>
    have hlast : ¬ P.col r + 1 < P.numCols := fun h => by cases hv.symm.trans (if_pos h)
    rw [getDownstreamRouter_eq_none rfl, RowEnd]
    omega
  | West =>
    have hfirst : ¬ 0 < P.col r := fun h => by cases hv.symm.trans (if_pos h)
    rw [getDownstreamRouter_eq_none rfl, RowEnd]
    omega
  | North =>
    have hlast : ¬ P.row r + 1 < P.numRows := fun h => by cases hv.symm.trans (if_pos h)
    -- from the last row the identifier leaves the mesh
    have hout : P.numRouters ≤ r + P.numCols := by
      apply Nat.le_of_not_lt
      intro hlt
      have hrow := row_lt hlt
      rw [Params.row, Nat.add_div_right r P.cols_pos] at hrow
      exact hlast hrow
    rw [getDownstreamRouter_eq_none rfl]
    simp only [RowEnd, not_false_eq_true, iff_true]
    omega
  | South =>
    have hfirst : ¬ 0 < P.row r := fun h => by cases hv.symm.trans (if_pos h)
    rw [Nat.eq_zero_of_not_pos hfirst, Nat.mul_zero] at hcoords
    rw [getDownstreamRouter_eq_none rfl]
    simp only [RowEnd, not_false_eq_true, iff_true]
    omega
  | Local | Unknown | Empty => cases hd

theorem getDownstreamRouter_of_rowEnd (hr : r < P.numRouters) (h : RowEnd P r d) :
    ∃ v, getDownstreamRouter P d r = .ok (some v) ∧ P.nbr v (getDownstreamDirn d) = none := by
  have hcoords := eq_coords P r
  cases d with
  | East =>
    refine ⟨r + 1, ?_, if_neg ?_⟩
    · exact getDownstreamRouter_eq_some rfl h.2
    · -- the next router opens a row
      have hnext : r + 1 = P.numCols * (P.row r + 1) := by
        rw [Nat.mul_succ]
        have := h.1
        omega
      rw [hnext, Nat.mul_mod_right]
      exact Nat.lt_irrefl 0
  | West =>
    refine ⟨r - 1, ?_, if_neg ?_⟩
    · have hpos := h.2
      apply getDownstreamRouter_eq_some _ (by omega)
      show Except.ok ((r : Int) - 1) = .ok ((r - 1 : Nat) : Int)
      rw [Int.ofNat_sub hpos]
      rfl
    · -- the router before closes a row
      have hcol : P.numCols * P.row r = r := by
        have := h.1
        omega
      have hpos : 0 < P.row r := Nat.pos_of_mul_pos_left (hcol.symm ▸ h.2)
      have hcols := P.cols_pos
      have hprev : r - 1 = (P.numCols - 1) + P.numCols * (P.row r - 1) := by
        rw [Nat.mul_sub_one, hcol]
        have := Nat.le_mul_of_pos_right P.numCols hpos
        omega
      have hmod : P.col (r - 1) = P.numCols - 1 := by
        rw [hprev]
        exact (coords (by omega)).1
      show ¬ P.col (r - 1) + 1 < P.numCols
      omega
  | North | South | Local | Unknown | Empty => exact h.elim

theorem getNumFreeVc_of_no_port (hv : P.nbr v d = none) (s : Net) :
    ∃ e, getNumFreeVc P s v d = .error e := by
  have hout : Outcome (getNumFreeVc P s v d) (fun _ => False) (fun _ => True) := by
    simp only [getNumFreeVc, inPort, outcome_do]
    rintro hloc - p hp rfl
    rcases mem_inports.mp (mem_of_getElem? hp) with ⟨n, -, -, rfl⟩ | ⟨d, u, hu, rfl⟩
    · exact hloc rfl
    · cases hv.symm.trans hu
  cases h : getNumFreeVc P s v d with
  | ok n => exact (hout.of_ok h).elim
  | error e => exact ⟨e, rfl⟩

theorem numFreeVc_of_some (hd : d.isMesh = true) (h : getDownstreamRouter P d r = .ok (some v))
    (s : Net) : numFreeVc P s r d = getNumFreeVc P s v (getDownstreamDirn d) := by
  simp only [numFreeVc, h, bind, Except.bind]
  cases d <;> first | rfl | cases hd

/-- **The border of the mesh.** `get_downstreamRouter` is `NULL` and `numFreeVC` is `0` exactly
where there is no link, if and only if the identifiers end there and the far end of each link has a
free channel. -/
theorem getDownstreamRouter_null_iff (P : Params) (s : Net) (latency : Nat) {r : Nat}
    (hr : r < P.numRouters) {d : PortDirection} (hd : d.isMesh = true) :
    (((getDownstreamRouter P d r = .ok none ↔ ¬ ∃ v, HasLink P latency r d v) ∧
        (numFreeVc P s r d = .ok 0 ↔ ¬ ∃ v, HasLink P latency r d v)) ↔
      ¬ RowEnd P r d ∧ ((∃ v, HasLink P latency r d v) →
        ∃ c < P.vcsPerVnet, s.buf (.inputVc (.int r d) c) = [])) ∧
    ((getDownstreamRouter P d r = .ok none ↔ ¬ ∃ v, HasLink P latency r d v) ↔ ¬ RowEnd P r d) ∧
    (RowEnd P r d → ∃ e, numFreeVc P s r d = .error e) := by
  have hnolink : (¬ ∃ v, HasLink P latency r d v) ↔ P.nbr r d = none := by
    simp [hasLink_iff hr, ← isSome_iff_exists]
  have herror : RowEnd P r d → ∃ e, numFreeVc P s r d = .error e := by
    intro hend
    obtain ⟨v, hv, hport⟩ := getDownstreamRouter_of_rowEnd hr hend
    rw [numFreeVc_of_some hd hv]
    exact getNumFreeVc_of_no_port hport s
  cases hv : P.nbr r d with
  | none =>
    have hno := hnolink.mpr hv
    have hnull := getDownstreamRouter_of_border hr hd hv
    refine ⟨?_, by simp only [hno, not_false_eq_true, iff_true, hnull], herror⟩
    simp only [hno, not_false_eq_true, iff_true, false_implies, and_true, hnull,
      and_iff_left_iff_imp]
    intro hend
    simp only [numFreeVc, hnull.mpr hend, bind, Except.bind, pure, Except.pure]
  | some v =>
    have hlink : ∃ v, HasLink P latency r d v := ⟨v, (hasLink_iff hr latency).mpr hv⟩
    have hrouter := getDownstreamRouter_of_nbr hr hv
    have hend : ¬ RowEnd P r d := fun h => nomatch (nbr_of_rowEnd h).symm.trans hv
    have hfree : numFreeVc P s r d = .ok 0 ↔
        ¬ ∃ c < P.vcsPerVnet, s.buf (.inputVc (.int r d) c) = [] := by
      rw [numFreeVc_of_some hd hrouter, getNumFreeVc_of_nbr hr hv]
      simp
    refine ⟨?_, ?_, herror⟩
    · simp [hlink, hrouter, hend, hfree]
    · simp [hlink, hrouter, hend]

/-- In the empty mesh of two rows and two columns, North of router `2`. -/
theorem getDownstreamRouter_null_iff_square :
    getDownstreamRouter (.mesh 2 2 (by decide)) .North 2 = .ok none ∧
      ¬ ∃ v, HasLink (.mesh 2 2 (by decide)) 1 2 .North v := by
  have hnull : getDownstreamRouter (.mesh 2 2 (by decide)) .North 2 = .ok none := by decide
  have h := getDownstreamRouter_null_iff (.mesh 2 2 (by decide)) (Net.init (.mesh 2 2 (by decide))) 1
    (r := 2) (by decide) (d := .North) rfl
  exact ⟨hnull, (h.2.1.mpr (fun h => h)).mp hnull⟩

/-- In a two-by-two mesh the router to the East of router `1` is router `2` of the next row. -/
theorem getDownstreamRouter_wraps : (¬ ∃ v, HasLink (.mesh 2 2 (by decide)) 1 1 .East v) ∧
      getDownstreamRouter (.mesh 2 2 (by decide)) .East 1 = .ok (some 2) ∧
      numFreeVc (.mesh 2 2 (by decide)) (Net.init (.mesh 2 2 (by decide))) 1 .East =
        .error .freeVcDirn := by
  refine ⟨?_, by decide, by decide⟩
  rintro ⟨v, hv⟩
  exact nomatch (hasLink_iff (by decide) 1).mp hv

end NocSwap
