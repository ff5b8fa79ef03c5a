import NocSwap.Garnet.Correct.Flits
import NocSwap.Garnet.Correct.Lookup
import NocSwap.Ruby.Correct.Topology

/-!
# Stored output ports are fresh
-/

namespace NocSwap

open NocSwap.Topology List

variable {P : Params} {s : Net}

/-! ### The routing table at the destination -/

theorem topologyWeights_separated (P : Params) : Separated P.topologyWeights where
  self i := by simp [Params.topologyWeights]
  pos i j hne := by
    simp only [Params.topologyWeights, infiniteLatency]
    split_ifs <;> omega

theorem dist_separated (P : Params) : Separated P.dist :=
  extendShortestPath_separated _ _ _ (topologyWeights_separated P)

theorem dist_niRouter {d : Nat} (hd : d < P.numNodes) :
    P.dist (2 * P.numNodes + P.niRouter d) (P.numNodes + d) = 1 := by
  have hle := extendShortestPath_lowered P.numSwitches
    (total P.numSwitches P.topologyWeights + 1) ⟨P.topologyWeights, fun _ _ => -1, fun _ _ => 0⟩
    (2 * P.numNodes + P.niRouter d) (P.numNodes + d)
  have hweight : P.topologyWeights (2 * P.numNodes + P.niRouter d) (P.numNodes + d) = 1 := by
    unfold Params.topologyWeights
    rw [if_neg (by omega), if_neg (by omega), if_neg (by omega), if_pos (by omega),
      if_pos (by rw [Nat.add_sub_cancel_left, Nat.add_sub_cancel_left])]
  exact le_antisymm (hle.trans_eq hweight) ((dist_separated P).pos _ _ (by omega))

theorem local_of_mem_routingTableEntry {d : Nat} {p : Port} (hd : d < P.numNodes)
    (hp : p ∈ P.outports (P.niRouter d)) (h : d ∈ P.routingTableEntry (P.niRouter d) p.link) :
    p.dirn = .Local := by
  have hlink := of_decide_eq_true (mem_filter.mp h).2
  rw [dist_niRouter hd] at hlink
  rcases mem_outports.mp hp with ⟨n, -, -, rfl⟩ | ⟨dirn, v, hv, rfl⟩
  · rfl
  · -- the way over a neighbour has two links at least
    have hne : 2 * P.numNodes + P.niRouter d ≠ P.portSwitch (.int (P.niRouter d) dirn) := by
      simp only [Params.portSwitch, hv, Option.getD_some]
      have := nbr_ne hv
      omega
    have hne' : P.portSwitch (.int (P.niRouter d) dirn) ≠ P.numNodes + d := by
      simp only [Params.portSwitch]
      omega
    dsimp only at hlink
    have h1 := (topologyWeights_separated P).pos _ _ hne
    have h2 := (dist_separated P).pos _ _ hne'
    omega

structure RouteOk (P : Params) (route : RouteInfo) : Prop where
  destNi_lt : route.destNi < P.numNodes
  nodes : route.netDest.nodes = [route.destNi]
  destRouter : route.destRouter = P.niRouter route.destNi

variable {route : RouteInfo}

theorem RouteOk.destRouter_lt (h : RouteOk P route) :
    route.destRouter < P.numRouters := h.destRouter ▸ P.niRouter_lt _

def meshAlgorithms : List RoutingAlgorithm := [.xy, .random, .adaptRand, .westFirst, .adaptWestFirst]

def manhattan (P : Params) (a b : Nat) : Nat :=
  (offset P.numCols a b).xHops + (offset P.numCols a b).yHops

/-- Port `o` of router `r` is `Local` at `dest` only, and elsewhere leads one hop nearer. -/
structure LeadsTo (P : Params) (r dest : Nat) (o : Port) : Prop where
  isLocal : o.dirn = .Local ↔ r = dest
  nearer : r ≠ dest → ∃ v, P.nbr r o.dirn = some v ∧ v < P.numRouters ∧
    downstream P o.dirn r = .ok v ∧ manhattan P v dest + 1 = manhattan P r dest

variable {r v dest : Nat}

theorem manhattan_nearer {d : PortDirection} (h : P.nbr r d = some v)
    (hmin : Minimal P r dest d) : manhattan P v dest + 1 = manhattan P r dest := by
  have hhop := nbr_coords h
  simp only [manhattan, offset]
  cases d <;> simp only [Minimal, HopCoords, Params.col, Params.row] at hmin hhop <;> omega

theorem leadsTo_local {o : Port} (h : o.dirn = .Local) : LeadsTo P r r o :=
  ⟨iff_of_true h rfl, fun hne => absurd rfl hne⟩

theorem leadsTo_minimal {o : Port} (hr : r < P.numRouters) (hdest : dest < P.numRouters)
    (hne : r ≠ dest) (h : Minimal P r dest o.dirn) : LeadsTo P r dest o := by
  obtain ⟨v, hv⟩ := nbr_of_minimal hdest h
  refine ⟨⟨fun hl => absurd hl (mesh_ne_local (nbr_isMesh hv)), fun he => absurd he hne⟩, fun _ => ?_⟩
  exact ⟨v, hv, nbr_lt hr hv, downstream_of_nbr hr hv, manhattan_nearer hv h⟩

variable {outport : Nat}

/-- **How a port is computed**: from the table, or from a direction that leads nearer to the
destination. -/
theorem routesTo_cases (hroute : RouteOk P route) (h : RoutesTo P r route outport) :
    (∃ o, (P.outports r)[outport]? = some o ∧ route.destNi ∈ P.routingTableEntry r o.link ∧
      (P.routingAlgorithm ∈ meshAlgorithms → route.destRouter = r)) ∨
    ∃ dirn, route.destRouter ≠ r ∧ Minimal P r route.destRouter dirn ∧
      (P.outports r)[outport]? = some ⟨dirn, .int r dirn⟩ := by
  obtain ⟨rnd, freeVc, h⟩ := h
  have htable : lookupRoutingTable (P.routingTable r) (P.isVNetOrdered route.vnet) route.netDest rnd
      = .ok outport → ∃ o, (P.outports r)[outport]? = some o ∧
        route.destNi ∈ P.routingTableEntry r o.link := fun h => by
    obtain ⟨e, he, ⟨d, hd, hmem⟩, -⟩ := mem_candidates.mp (mem_candidates_of_lookup h)
    obtain ⟨o, ho, rfl⟩ := Option.map_eq_some_iff.mp (getElem?_map .. ▸ he)
    rw [hroute.nodes, mem_singleton] at hd
    exact ⟨o, ho, hd ▸ hmem⟩
  unfold outportCompute at h
  split_ifs at h with hdest
  · obtain ⟨o, ho, hmem⟩ := htable h
    exact .inl ⟨o, ho, hmem, fun _ => hdest⟩
  split at h
  · rename_i x hx
    obtain ⟨dirn, hdirn, hout⟩ := bind_eq_ok.mp h
    have hmin := meshOutport_minimal hx hdirn
    obtain ⟨v, hv⟩ := nbr_of_minimal hroute.destRouter_lt hmin
    obtain ⟨i, hi⟩ := mem_iff_getElem?.mp (mem_outports.mpr (.inr ⟨dirn, v, hv, rfl⟩))
    have hidx := dirn2idx_eq (outports_pairwise P r) hi (nbr_isMesh hv)
    have hi' : outport = i := (Except.ok.inj hout).symm.trans hidx
    exact .inr ⟨dirn, hdest, hmin, hi' ▸ hi⟩
  · rename_i hnone
    obtain ⟨o, ho, hmem⟩ := htable h
    refine .inl ⟨o, ho, hmem, ?_⟩
    -- the algorithms of the mesh do not read the table
    revert hnone
    cases P.routingAlgorithm <;> simp [meshAlgorithms, meshOutport]

theorem outportCompute_leadsTo (halg : P.routingAlgorithm ∈ meshAlgorithms) (hr : r < P.numRouters)
    (hroute : RouteOk P route) (h : RoutesTo P r route outport) :
    ∃ o, (P.outports r)[outport]? = some o ∧ LeadsTo P r route.destRouter o := by
  rcases routesTo_cases hroute h with ⟨o, ho, hmem, hdest⟩ | ⟨dirn, hne, hmin, ho⟩
  · -- at the destination the table decides
    rw [← hdest halg, hroute.destRouter] at ho hmem ⊢
    exact ⟨o, ho, leadsTo_local
      (local_of_mem_routingTableEntry hroute.destNi_lt (mem_of_getElem? ho) hmem)⟩
  · exact ⟨_, ho, leadsTo_minimal hr hroute.destRouter_lt (Ne.symm hne) hmin⟩

theorem routeOk (P : Params) : Inductive P fun s => ∀ b, ∀ f ∈ s.buf b, RouteOk P f.route := by
  have hstatic := static_inductive (P := P) (φ := fun f => RouteOk P f.route)
    fun _ _ _ _ _ _ hc => ⟨hc.dest_lt, hc.destination, rfl⟩
  refine hstatic.congr fun s => forall₃_congr fun b f _ => ⟨fun h => ?_, fun h => ?_⟩
  · exact ⟨h.destNi_lt, h.nodes, h.destRouter⟩
  · exact ⟨h.destNi_lt, h.nodes, h.destRouter⟩

/-- The output port of the flit has the direction that the flit carries, and leads to its
destination. -/
def FreshIn (P : Params) (r : Nat) (f : Flit) : Prop :=
  ∃ o, (P.outports r)[f.outport]? = some o ∧ f.outportDir = o.dirn ∧
    LeadsTo P r f.route.destRouter o

def Fresh (P : Params) : Buf → Flit → Prop
  | .inputVc l _, f => ∀ r < P.numRouters, ∀ p ∈ P.inports r, p.link = l → FreshIn P r f
  | _, _ => True

theorem fresh_of_freshIn {p : Port} {f : Flit} (hr : r < P.numRouters)
    (hp : p ∈ P.inports r) (h : FreshIn P r f) : Fresh P (.inputVc p.link v) f :=
  forall_inport hr hp h

theorem freshIn_swapped (halg : P.routingAlgorithm ∈ meshAlgorithms) {f : Flit}
    (hr : r < P.numRouters) (hroute : RouteOk P f.route) (h : RoutesTo P r f.route outport) :
    FreshIn P r (swappedFlit P r f outport v) := by
  obtain ⟨o, ho, hlead⟩ := outportCompute_leadsTo halg hr hroute h
  exact ⟨o, ho, by simp [swappedFlit, Params.idx2dirn, ho], hlead⟩

theorem fresh (halg : P.routingAlgorithm ∈ meshAlgorithms) :
    InductiveUnder P (fun s => ∀ b, ∀ f ∈ s.buf b, RouteOk P f.route)
      fun s => ∀ b, ∀ f ∈ s.buf b, Fresh P b f := by
  refine flits_inductive fun s hroute h b f haft => ?_
  have hhead : ∀ {b₀ g gs}, s.buf b₀ = g :: gs → RouteOk P g.route :=
    fun {b₀ g gs} hb => hroute b₀ g (hb ▸ mem_cons_self ..)
  cases haft with
  | kept hf => exact h b f hf
  | @cleared _ g hf =>
    have hg := h b g hf
    cases b <;> exact hg
  | @arrived r outport p o f fs ha =>
    obtain ⟨h1, h2, h3⟩ := hhead ha.head
    obtain ⟨o', ho', hlead⟩ := outportCompute_leadsTo halg ha.router_lt ⟨h1, h2, h3⟩ ha.route
    obtain rfl : o' = o := Option.some.inj (ho'.symm.trans ha.outport_eq)
    exact fresh_of_freshIn ha.router_lt ha.port ⟨o', ho', rfl, hlead⟩
  | handedBack hs =>
    exact fresh_of_freshIn hs.router_lt (mem_of_getElem? hs.ptr.port)
      (freshIn_swapped halg hs.router_lt (hhead hs.head') hs.route')
  | swapped hs =>
    have hlt := (downstream_spec hs.downstream_eq).1
    have hf := hhead hs.head
    exact fresh_of_freshIn hlt (mem_of_getElem? hs.facing)
      (freshIn_swapped halg hlt hf hs.route)
  | _ => exact trivial

theorem freeVcToward_minimal {d : PortDirection} (hr : r < P.numRouters)
    (hdest : dest < P.numRouters) (h : Minimal P r dest d) (s : Net) :
    Outcome (freeVcToward P s r d) (fun _ => True) (· ∉ downstreamFaults) := by
  obtain ⟨v, hv⟩ := nbr_of_minimal hdest h
  simp only [freeVcToward, downstream_of_nbr hr hv, getNumFreeVc, inPort, outcome_do, outcome_ok]
  refine ⟨fun _ => ⟨fun _ => ⟨fun _ _ => ?_, ?_⟩, ?_⟩, ?_⟩
  all_goals exact fun _ => by decide

theorem moreFree_neighbours (hr : r < P.numRouters) (hdest : dest < P.numRouters)
    (hx : (offset P.numCols r dest).xHops ≠ 0) (hy : (offset P.numCols r dest).yHops ≠ 0) (s : Net)
    (rnd : Nat) :
    Outcome (moreFree (offset P.numCols r dest) rnd (freeVcToward P s r)) (fun _ => True)
      (· ∉ downstreamFaults) := by
  simp only [moreFree, outcome_do]
  refine (freeVcToward_minimal hr hdest (minimal_horizontal hx) s).imp fun _ _ => ?_
  exact (freeVcToward_minimal hr hdest (minimal_vertical hy) s).imp fun _ _ => trivial

theorem routeCompute_neighbours (hr : r < P.numRouters)
    (hdest : route.destRouter < P.numRouters) (s : Net) (rnd : Nat) :
    Outcome (routeCompute P s r route rnd) (fun _ => True) (· ∉ downstreamFaults) := by
  have htable : Outcome (lookupRoutingTable (P.routingTable r) (P.isVNetOrdered route.vnet)
      route.netDest rnd) (fun _ => True) (· ∉ downstreamFaults) := by
    simp only [lookupRoutingTable, outcome_orFail]
    exact ⟨fun _ _ => trivial, fun _ => by decide⟩
  have hmore := fun hx hy => moreFree_neighbours hr hdest hx hy s rnd
  have hreached : Fault.destinationReached ∉ downstreamFaults := by decide
  have hcustom : Fault.customRouting ∉ downstreamFaults := by decide
  unfold routeCompute outportCompute
  simp only [outcome_ite]
  refine ⟨fun _ => htable, fun _ => ?_⟩
  cases P.routingAlgorithm with
  | table | deflection => exact htable
  | adaptRand =>
    simp only [meshOutport, outportComputeAdaptRand, Offset.check, outcome_do, outcome_ite]
    exact ⟨fun _ => fun hx => hmore hx, fun _ => hreached⟩
  | adaptWestFirst =>
    simp only [meshOutport, outportComputeAdaptWestFirst, Offset.check, outcome_do, outcome_ite]
    exact ⟨fun _ => fun hx => fun hy =>
      fun _ => hmore hx hy, fun _ => hreached⟩
  | _ =>
    simp [meshOutport, outportComputeXY, outportComputeRandom, outportComputeWestFirst, Offset.check,
      hreached, hcustom]

theorem fresh_faults (hroute : ∀ b, ∀ f ∈ s.buf b, RouteOk P f.route)
    (h : ∀ b, ∀ f ∈ s.buf b, Fresh P b f) {e : Fault} (hf : FaultAt P s e) :
    e ∉ [Fault.outportDirEmpty, .outportDirMismatch, .downstreamDirn, .routerOutOfRange] := by
  have hfresh : ∀ {r v p f fs}, r < P.numRouters → p ∈ P.inports r →
      s.buf (.inputVc p.link v) = f :: fs → FreshIn P r f := fun {r v p f fs} hr hp hb =>
    h (.inputVc p.link v) f (hb ▸ mem_cons_self ..) r hr p hp rfl
  cases hf with
  | @outportDir r v p f fs _ hr hp _ hb hdir =>
    obtain ⟨o, ho, hd, hlead⟩ := hfresh hr hp hb
    rcases hdir with hdir | hdir
    · rw [Params.idx2dirn, ho] at hdir
      exact absurd hd.symm hdir
    · rw [hd] at hdir
      rcases mem_outports.mp (mem_of_getElem? ho) with ⟨n, -, -, rfl⟩ | ⟨d, v, hv, rfl⟩
      · cases hdir
      · have hmesh := nbr_isMesh hv
        rw [show d = .Empty from hdir] at hmesh
        cases hmesh
  | @downstream r v p f fs _ hr hp _ hb hl hd =>
    obtain ⟨o, -, hdir, hlead⟩ := hfresh hr hp hb
    obtain ⟨w, -, -, hok, -⟩ := hlead.nearer fun hr => hl (hdir.trans (hlead.isLocal.mpr hr))
    rw [hdir, hok] at hd
    cases hd
  | @routing r rnd b f route s' _ hr hmem hdest he he' =>
    have hlt : route.destRouter < P.numRouters := hdest ▸ (hroute b f hmem).destRouter_lt
    have hnot := (routeCompute_neighbours hr hlt s' rnd).of_error he
    clear he
    revert he' hnot e
    decide
  | movSwapPtr _ _ hd he =>
    clear hd
    revert he e
    decide
  | ptrInvalid _ _ _ he | other he =>
    revert he e
    decide
  | _ => decide

/-- **Route freshness.** A flit in an input channel carries the direction of its output port, which
is `Local` exactly at its destination router and else leads one hop nearer. -/
theorem route_fresh (halg : P.routingAlgorithm ∈ meshAlgorithms) (h : Reachable P s) :
    (∀ r < P.numRouters, ∀ p ∈ P.inports r, ∀ v, ∀ f ∈ s.buf (.inputVc p.link v),
      ∃ o, (P.outports r)[f.outport]? = some o ∧ f.outportDir = o.dirn ∧
        (f.outportDir = .Local ↔ r = f.route.destRouter) ∧
        (r ≠ f.route.destRouter → ∃ d, P.nbr r f.outportDir = some d ∧ d < P.numRouters ∧
          downstream P f.outportDir r = .ok d ∧
          manhattan P d f.route.destRouter + 1 = manhattan P r f.route.destRouter)) ∧
    ∀ l e, Enabled P s l → exec P l s = .error e →
      e ∉ [Fault.outportDirEmpty, .outportDirMismatch, .downstreamDirn, .routerOutOfRange] := by
  have hind := (fresh halg).and (routeOk P)
  refine ⟨fun r hr p hp v f hf => ?_, fun l e hen he => ?_⟩
  · obtain ⟨o, ho, hd, hlead⟩ := (hind.reachable h).2 _ f hf r hr p hp rfl
    rw [hd]
    exact ⟨o, ho, rfl, hlead.isLocal, hlead.nearer⟩
  · obtain ⟨t, ⟨ht, ht'⟩, hf⟩ := hind.fault h hen he
    exact fresh_faults ht ht' hf

/-- After the swap, the flit handed back to router `2` is bound for router `1` again. -/
theorem route_fresh_quad :
    ∃ s f, quadRun 28 = some s ∧ f ∈ s.buf (.inputVc (.int 3 .West) 0) ∧ f.route.destRouter = 0 ∧
      ∃ d, Params.nbr .quad 2 f.outportDir = some d ∧
        manhattan .quad d 0 + 1 = manhattan .quad 2 0 := by
  have hrun : (quadRun 28).bind (fun s =>
      (s.buf (.inputVc (.int 3 .West) 0)).head?.map fun f => f.route.destRouter) = some 0 := by
    decide +kernel
  obtain ⟨s, hs, hhead⟩ := Option.bind_eq_some_iff.mp hrun
  obtain ⟨f, hf, hdest⟩ := Option.map_eq_some_iff.mp hhead
  have hmem := mem_of_mem_head? hf
  obtain ⟨o, -, -, -, hnear⟩ := (route_fresh (P := .quad) (by decide) (quadRun_reachable hs)).1 2
    (by decide) ⟨.East, .int 3 .West⟩ (by decide) 0 f hmem
  rw [hdest] at hnear
  obtain ⟨d, hd, -, -, hman⟩ := hnear (by decide)
  exact ⟨s, f, hs, hmem, hdest, d, hd, hman⟩

end NocSwap
