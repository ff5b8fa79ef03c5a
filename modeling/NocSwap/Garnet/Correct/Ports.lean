import NocSwap.Garnet.Correct.Routing
import NocSwap.Garnet.Run

/-!
# Ports and links
-/

namespace NocSwap

open List

variable {P : Params}

/-! ### Directions -/

variable {d : PortDirection}

theorem getDownstreamDirn_invol (h : d.isMesh = true) :
    getDownstreamDirn (getDownstreamDirn d) = d := by
  cases d <;> first | rfl | cases h

theorem getDownstreamDirn_isMesh (h : d.isMesh = true) : (getDownstreamDirn d).isMesh = true := by
  cases d <;> first | rfl | cases h

theorem isMesh_iff_mem : d.isMesh = true ↔ d ∈ Params.meshDirns := by
  cases d <;> decide

variable {r v : Nat}

theorem nbr_isMesh (h : P.nbr r d = some v) : d.isMesh = true := by
  cases d <;> first | rfl | cases h

theorem mesh_ne_local (h : d.isMesh = true) : d ≠ .Local := by
  rintro rfl
  cases h

theorem row_lt (h : r < P.numRouters) : P.row r < P.numRows :=
  Nat.div_lt_of_lt_mul (by rw [Nat.mul_comm]; exact h)

theorem col_lt (P : Params) (r : Nat) : P.col r < P.numCols := Nat.mod_lt r P.cols_pos

theorem eq_of_coords (hc : P.col r = P.col v) (hr : P.row r = P.row v) : r = v := by
  rw [← eq_coords P r, ← eq_coords P v, hc, hr]

theorem lt_of_row (h : P.row r < P.numRows) : r < P.numRouters := by
  have hc := col_lt P r
  have hmul : P.numCols * (P.row r + 1) ≤ P.numCols * P.numRows := Nat.mul_le_mul_left _ h
  have := eq_coords P r
  rw [Params.numRouters, Nat.mul_comm]
  rw [Nat.mul_add, Nat.mul_one] at hmul
  omega

theorem nbr_lt (hr : r < P.numRouters) (h : P.nbr r d = some v) : v < P.numRouters := by
  have hrow := row_lt hr
  apply lt_of_row
  have hc := nbr_coords h
  cases d with
  | North =>
    simp only [Params.nbr, Option.ite_none_right_eq_some] at h
    have hn : P.row r + 1 < P.numRows := h.1
    simp only [HopCoords] at hc
    omega
  | East | South | West => simp only [HopCoords] at hc; omega
  | Local | Unknown | Empty => cases h

theorem nbr_ne (h : P.nbr r d = some v) : v ≠ r := by
  have hc := nbr_coords h
  rintro rfl
  cases d <;> simp only [HopCoords] at hc <;> omega

theorem nbr_of_hop (hv : v < P.numRouters) (h : HopCoords P r v d) : P.nbr r d = some v := by
  have hcol := col_lt P v
  have hrow := row_lt hv
  obtain ⟨u, hu⟩ : ∃ u, P.nbr r d = some u := by
    cases d with
    | East => exact ⟨r + 1, if_pos (show P.col r + 1 < P.numCols by have := h.1; omega)⟩
    | West => exact ⟨r - 1, if_pos (show 0 < P.col r by have := h.1; omega)⟩
    | North => exact ⟨r + P.numCols, if_pos (show P.row r + 1 < P.numRows by have := h.2; omega)⟩
    | South => exact ⟨r - P.numCols, if_pos (show 0 < P.row r by have := h.2; omega)⟩
    | Local | Unknown | Empty => exact h.elim
  -- the neighbour has the coordinates of `v`
  have hu' := nbr_coords hu
  rw [hu, Option.some.injEq]
  apply eq_of_coords (P := P) <;> cases d <;> simp only [HopCoords] at h hu' <;> omega

theorem nbr_symm (hr : r < P.numRouters) (h : P.nbr r d = some v) :
    P.nbr v (getDownstreamDirn d) = some r := by
  have hc := nbr_coords h
  apply nbr_of_hop hr
  cases d <;> simp only [HopCoords, getDownstreamDirn] at hc ⊢ <;> omega

theorem getDownstreamId_of_nbr (h : P.nbr r d = some v) :
    getDownstreamId P d r = .ok (v : Int) := by
  cases d <;> simp only [Params.nbr, Option.ite_none_right_eq_some, Option.some.injEq,
    reduceCtorEq] at h
  all_goals
    obtain ⟨hc, rfl⟩ := h
    simp [getDownstreamId, pure, Except.pure]
  case South =>
    have hle := (Nat.div_pos_iff.mp hc).2
    omega
  case West =>
    have hle := Nat.mod_le r P.numCols
    omega

theorem downstream_of_nbr (hr : r < P.numRouters)
    (h : P.nbr r d = some v) : downstream P d r = .ok v := by
  have hlt := nbr_lt hr h
  simp only [downstream, getDownstreamId_of_nbr h, require, bind, Except.bind, pure, Except.pure]
  rw [if_pos ⟨by omega, by exact_mod_cast hlt⟩]
  simp

theorem nbr_of_minimal {dest : Nat} (hdest : dest < P.numRouters)
    (h : Minimal P r dest d) : ∃ v, P.nbr r d = some v := by
  have hcol := col_lt P dest
  have hrow := row_lt hdest
  cases d with
  | East => exact ⟨r + 1, if_pos (show P.col r + 1 < P.numCols by simp only [Minimal] at h; omega)⟩
  | West => exact ⟨r - 1, if_pos (show 0 < P.col r by simp only [Minimal] at h; omega)⟩
  | North =>
    exact ⟨r + P.numCols, if_pos (show P.row r + 1 < P.numRows by simp only [Minimal] at h; omega)⟩
  | South => exact ⟨r - P.numCols, if_pos (show 0 < P.row r by simp only [Minimal] at h; omega)⟩
  | Local | Unknown | Empty => exact h.elim

variable {p : Port}

section Ports

variable {ext : Nat → Link} {int : PortDirection → Nat → Link}

theorem mem_ports : p ∈ (P.nisOf r).map (fun n => (⟨.Local, ext n⟩ : Port)) ++
      Params.meshDirns.filterMap (fun d => (P.nbr r d).map fun v => ⟨d, int d v⟩) ↔
    (∃ n < P.numNodes, P.niRouter n = r ∧ p = ⟨.Local, ext n⟩) ∨
      ∃ d v, P.nbr r d = some v ∧ p = ⟨d, int d v⟩ := by
  simp only [Params.nisOf, mem_append, mem_map, mem_filter, mem_range,
    decide_eq_true_eq, mem_filterMap, Option.map_eq_some_iff]
  constructor
  · rintro (⟨n, ⟨hn, hr⟩, rfl⟩ | ⟨d, -, v, hv, rfl⟩)
    · exact Or.inl ⟨n, hn, hr, rfl⟩
    · exact Or.inr ⟨d, v, hv, rfl⟩
  · rintro (⟨n, hn, hr, rfl⟩ | ⟨d, v, hv, rfl⟩)
    · exact Or.inl ⟨n, ⟨hn, hr⟩, rfl⟩
    · exact Or.inr ⟨d, isMesh_iff_mem.mp (nbr_isMesh hv), v, hv, rfl⟩

theorem mem_inports : p ∈ P.inports r ↔
    (∃ n < P.numNodes, P.niRouter n = r ∧ p = ⟨.Local, .extIn n⟩) ∨
      ∃ d v, P.nbr r d = some v ∧ p = ⟨d, .int v (getDownstreamDirn d)⟩ :=
  mem_ports

theorem mem_outports : p ∈ P.outports r ↔
    (∃ n < P.numNodes, P.niRouter n = r ∧ p = ⟨.Local, .extOut n⟩) ∨
      ∃ d v, P.nbr r d = some v ∧ p = ⟨d, .int r d⟩ :=
  mem_ports

def PortsDiffer (p q : Port) : Prop := p.link ≠ q.link ∧ (p.dirn = q.dirn → p.dirn = .Local)

theorem nisOf_pairwise (P : Params) (r : Nat) : (P.nisOf r).Pairwise (· ≠ ·) :=
  (nodup_range (n := P.numNodes)).filter _

theorem ports_pairwise (hext : ∀ n n', ext n = ext n' → n = n') (hne : ∀ n d v, ext n ≠ int d v)
    (hint : ∀ {d d' v v'}, P.nbr r d = some v → P.nbr r d' = some v' → int d v = int d' v' → d = d') :
    ((P.nisOf r).map (fun n => (⟨.Local, ext n⟩ : Port)) ++
      Params.meshDirns.filterMap fun d => (P.nbr r d).map fun v => (⟨d, int d v⟩ : Port)).Pairwise
        PortsDiffer := by
  rw [pairwise_append, pairwise_map, pairwise_filterMap]
  refine ⟨(nisOf_pairwise P r).imp fun hn => ⟨fun h => hn (hext _ _ h), fun _ => rfl⟩, ?_, ?_⟩
  · have hdirns : Params.meshDirns.Pairwise (· ≠ ·) := by decide
    refine hdirns.imp fun {d d'} hd p hp q hq => ?_
    obtain ⟨v, hv, rfl⟩ := Option.map_eq_some_iff.mp hp
    obtain ⟨v', hv', rfl⟩ := Option.map_eq_some_iff.mp hq
    exact ⟨fun h => hd (hint hv hv' h), fun h => absurd h hd⟩
  · intro p hp q hq
    obtain ⟨n, -, rfl⟩ := mem_map.mp hp
    obtain ⟨d, -, hd⟩ := mem_filterMap.mp hq
    obtain ⟨v, -, rfl⟩ := Option.map_eq_some_iff.mp hd
    exact ⟨hne n d v, fun _ => rfl⟩

theorem inports_pairwise (P : Params) (r : Nat) : (P.inports r).Pairwise PortsDiffer := by
  refine ports_pairwise (fun _ _ => Link.extIn.inj) (fun _ _ _ => Link.noConfusion) fun hv hv' h => ?_
  rw [← getDownstreamDirn_invol (nbr_isMesh hv), (Link.int.inj h).2,
    getDownstreamDirn_invol (nbr_isMesh hv')]

theorem outports_pairwise (P : Params) (r : Nat) : (P.outports r).Pairwise PortsDiffer :=
  ports_pairwise (fun _ _ => Link.extOut.inj) (fun _ _ _ => Link.noConfusion)
    fun _ _ h => (Link.int.inj h).2

end Ports

variable {l : Link}

theorem mem_links : l ∈ P.links ↔
    (∃ n < P.numNodes, l = .extIn n) ∨ (∃ n < P.numNodes, l = .extOut n) ∨
      ∃ r < P.numRouters, ∃ d v, P.nbr r d = some v ∧ l = .int r d := by
  simp only [Params.links, mem_append, mem_map, mem_range, mem_flatMap,
    mem_filter, Option.isSome_iff_exists, or_assoc]
  constructor
  · rintro (⟨n, hn, rfl⟩ | ⟨n, hn, rfl⟩ | ⟨r, hr, d, ⟨-, v, hv⟩, rfl⟩)
    · exact Or.inl ⟨n, hn, rfl⟩
    · exact Or.inr (Or.inl ⟨n, hn, rfl⟩)
    · exact Or.inr (Or.inr ⟨r, hr, d, v, hv, rfl⟩)
  · rintro (⟨n, hn, rfl⟩ | ⟨n, hn, rfl⟩ | ⟨r, hr, d, v, hv, rfl⟩)
    · exact Or.inl ⟨n, hn, rfl⟩
    · exact Or.inr (Or.inl ⟨n, hn, rfl⟩)
    · exact Or.inr (Or.inr ⟨r, hr, d, ⟨isMesh_iff_mem.mp (nbr_isMesh hv), v, hv⟩, rfl⟩)

theorem inport_consumer (hr : r < P.numRouters) (h : p ∈ P.inports r) :
    P.linkConsumer p.link = .router r := by
  rcases mem_inports.mp h with ⟨n, -, hn, rfl⟩ | ⟨d, v, hv, rfl⟩
  · exact congrArg _ hn
  · simp [Params.linkConsumer, nbr_symm hr hv]

theorem outport_driver (h : p ∈ P.outports r) : P.creditConsumer p.link = .router r := by
  rcases mem_outports.mp h with ⟨n, -, hn, rfl⟩ | ⟨d, v, hv, rfl⟩
  · exact congrArg _ hn
  · rfl

theorem inport_mem_links (hr : r < P.numRouters) (h : p ∈ P.inports r) : p.link ∈ P.links := by
  rw [mem_links]
  rcases mem_inports.mp h with ⟨n, hlt, -, rfl⟩ | ⟨d, v, hv, rfl⟩
  · exact Or.inl ⟨n, hlt, rfl⟩
  · exact Or.inr (Or.inr ⟨v, nbr_lt hr hv, _, r, nbr_symm hr hv, rfl⟩)

theorem outport_mem_links (hr : r < P.numRouters) (h : p ∈ P.outports r) : p.link ∈ P.links := by
  rw [mem_links]
  rcases mem_outports.mp h with ⟨n, hlt, -, rfl⟩ | ⟨d, v, hv, rfl⟩
  · exact Or.inr (Or.inl ⟨n, hlt, rfl⟩)
  · exact Or.inr (Or.inr ⟨r, hr, d, v, hv, rfl⟩)

theorem inport_dirn (h : p ∈ P.inports r) : p.dirn = .Local ∨ p.dirn.isMesh = true := by
  rcases mem_inports.mp h with ⟨n, -, -, rfl⟩ | ⟨d, v, hv, rfl⟩
  · exact Or.inl rfl
  · exact Or.inr (nbr_isMesh hv)

theorem port_idx_unique {ports : List Port} (hp : ports.Pairwise PortsDiffer) {i j : Nat}
    {q : Port} (hi : ports[i]? = some p) (hj : ports[j]? = some q)
    (h : p.link = q.link ∨ (p.dirn = q.dirn ∧ p.dirn.isMesh = true)) : i = j := by
  obtain ⟨hi', rfl⟩ := List.getElem?_eq_some_iff.mp hi
  obtain ⟨hj', rfl⟩ := List.getElem?_eq_some_iff.mp hj
  rw [pairwise_iff_getElem] at hp
  rcases lt_trichotomy i j with hlt | heq | hlt
  · obtain ⟨hl, hd⟩ := hp i j hi' hj' hlt
    rcases h with h | ⟨h, hm⟩
    · exact absurd h hl
    · exact absurd (hd h) (mesh_ne_local hm)
  · exact heq
  · obtain ⟨hl, hd⟩ := hp j i hj' hi' hlt
    rcases h with h | ⟨h, hm⟩
    · exact absurd h.symm hl
    · exact absurd (h.trans (hd h.symm)) (mesh_ne_local hm)

theorem dirn2idx_eq {ports : List Port} (hp : ports.Pairwise PortsDiffer) {i : Nat}
    (hi : ports[i]? = some p) (hm : p.dirn.isMesh = true) : Params.dirn2idx ports p.dirn = i := by
  have hloop : ∀ (l : List Port) (k acc : Nat),
      (∀ j q, l[j]? = some q → q.dirn = p.dirn → k + j = i) →
      (acc = i ∨ ∃ j, k + j = i ∧ l[j]? = some p) →
      (l.zipIdx k).foldl (fun acc e => if e.1.dirn = p.dirn then e.2 else acc) acc = i := by
    intro l
    induction l with
    | nil =>
      intro k acc _ h
      rcases h with h | ⟨j, -, h⟩
      · exact h
      · simp at h
    | cons q l ih =>
      intro k acc huniq h
      rw [zipIdx_cons, foldl_cons]
      apply ih
      · intro j q' hj hq'
        have := huniq (j + 1) q' (by simpa using hj) hq'
        omega
      · by_cases hq : q.dirn = p.dirn
        · exact Or.inl (by simpa [hq] using huniq 0 q rfl hq)
        · rcases h with h | ⟨j, hj, h⟩
          · exact Or.inl (by simpa [hq] using h)
          · cases j with
            | zero => exact absurd (congrArg Port.dirn (by simpa using h)) hq
            | succ j => exact Or.inr ⟨j, by omega, by simpa using h⟩
  exact hloop ports 0 0
    (fun j q hj hq => by
      have := port_idx_unique hp hi hj (Or.inr ⟨hq.symm, hm⟩)
      omega)
    (Or.inr ⟨i, by omega, hi⟩)

/-- **The far end of an internal link** is the port of the neighbour in the opposite direction. -/
theorem facing_inport {u : Nat} (hu : u < P.numRouters) (h : P.nbr u d = some v) :
    (P.inports v)[Params.dirn2idx (P.inports v) (getDownstreamDirn d)]? =
      some ⟨getDownstreamDirn d, .int u d⟩ := by
  have hmem : (⟨getDownstreamDirn d, .int u d⟩ : Port) ∈ P.inports v :=
    mem_inports.mpr (Or.inr ⟨_, u, nbr_symm hu h, by rw [getDownstreamDirn_invol (nbr_isMesh h)]⟩)
  obtain ⟨i, hi⟩ := mem_iff_getElem?.mp hmem
  rw [dirn2idx_eq (inports_pairwise P v) hi (getDownstreamDirn_isMesh (nbr_isMesh h))]
  exact hi

theorem exists_outport (hl : l ∈ P.links)
    (h : P.creditConsumer l = .router r) : ∃ o ∈ P.outports r, o.link = l := by
  rcases mem_links.mp hl with ⟨n, -, rfl⟩ | ⟨n, hn, rfl⟩ | ⟨u, -, d, v, hv, rfl⟩
  · cases h
  · exact ⟨_, mem_outports.mpr (.inl ⟨n, hn, Params.Sink.router.inj h, rfl⟩), rfl⟩
  · obtain rfl : u = r := Params.Sink.router.inj h
    exact ⟨_, mem_outports.mpr (.inr ⟨d, v, hv, rfl⟩), rfl⟩

theorem exists_inport (hl : l ∈ P.links)
    (h : P.linkConsumer l = .router r) : ∃ p ∈ P.inports r, p.link = l := by
  rcases mem_links.mp hl with ⟨n, hn, rfl⟩ | ⟨n, -, rfl⟩ | ⟨u, hu, d, v, hv, rfl⟩
  · exact ⟨_, mem_inports.mpr (.inl ⟨n, hn, Params.Sink.router.inj h, rfl⟩), rfl⟩
  · cases h
  · have hvr : (P.nbr u d).getD 0 = r := Params.Sink.router.inj h
    obtain rfl : v = r := by rwa [hv] at hvr
    exact ⟨_, mem_of_getElem? (facing_inport hu hv), rfl⟩

theorem creditConsumer_ne_linkConsumer (hl : l ∈ P.links) :
    P.creditConsumer l ≠ P.linkConsumer l := by
  rcases mem_links.mp hl with ⟨n, -, rfl⟩ | ⟨n, -, rfl⟩ | ⟨u, -, d, v, hv, rfl⟩
  · exact fun h => by cases h
  · exact fun h => by cases h
  · intro h
    have huv : u = (P.nbr u d).getD 0 := Params.Sink.router.inj h
    rw [hv] at huv
    exact nbr_ne hv huv.symm

end NocSwap
