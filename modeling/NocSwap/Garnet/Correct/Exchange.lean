import NocSwap.Garnet.Correct.Attempt
import NocSwap.Garnet.Correct.Conservation
import NocSwap.Garnet.Correct.Fresh

/-!
# What an attempt to swap does
-/

namespace NocSwap

open Ledger NocSwap.Topology Function List

variable {P : Params} {s t : Net} {u d v : Nat} {p : Port} {f : Flit} {fs : List Flit}

/-! ### Routes can always be computed -/

variable {r w : Nat} {dirn : PortDirection}

theorem freeVcToward_ok (hr : r < P.numRouters)
    (h : P.nbr r dirn = some w) (s : Net) : ∃ n, freeVcToward P s r dirn = .ok n := by
  have hloc := mesh_ne_local (getDownstreamDirn_isMesh (nbr_isMesh h))
  simp [freeVcToward, downstream_of_nbr hr h, getNumFreeVc, inPort_facing hr h, require, hloc, bind,
    Except.bind, pure, Except.pure]

variable {dest : Nat}

theorem moreFree_ok (hr : r < P.numRouters) (hdest : dest < P.numRouters)
    (hx : (offset P.numCols r dest).xHops ≠ 0) (hy : (offset P.numCols r dest).yHops ≠ 0) (s : Net)
    (rnd : Nat) :
    ∃ dirn, moreFree (offset P.numCols r dest) rnd (freeVcToward P s r) = .ok dirn := by
  obtain ⟨v, hv⟩ := nbr_of_minimal hdest (minimal_horizontal hx)
  obtain ⟨w, hw⟩ := nbr_of_minimal hdest (minimal_vertical hy)
  obtain ⟨m, hm⟩ := freeVcToward_ok hr hv s
  obtain ⟨n, hn⟩ := freeVcToward_ok hr hw s
  have hX : freeVcToward P s r (offset P.numCols r dest).xOutport = .ok m := hm
  have hY : freeVcToward P s r (offset P.numCols r dest).yOutport = .ok n := hn
  simp [moreFree, hX, hY, bind, Except.bind, pure, Except.pure]

theorem meshOutport_ok {alg : RoutingAlgorithm} (halg : alg ∈ meshAlgorithms)
    (hr : r < P.numRouters) (hdest : dest < P.numRouters) (hne : r ≠ dest) (s : Net) (rnd : Nat) :
    ∃ dirn, meshOutport alg (offset P.numCols r dest) rnd (freeVcToward P s r) =
      some (.ok dirn) := by
  have hoff : ¬ ((offset P.numCols r dest).xHops = 0 ∧ (offset P.numCols r dest).yHops = 0) :=
    fun h => hne (offset_zero (not_not.mpr h))
  have hcheck : (offset P.numCols r dest).check = .ok () := if_pos hoff
  have hmore : (offset P.numCols r dest).xHops ≠ 0 → (offset P.numCols r dest).yHops ≠ 0 →
      ∃ dirn, some (moreFree (offset P.numCols r dest) rnd (freeVcToward P s r)) =
        some (.ok dirn) := by
    intro hx hy
    obtain ⟨dirn, hdirn⟩ := moreFree_ok hr hdest hx hy s rnd
    exact ⟨dirn, congrArg some hdirn⟩
  revert halg hmore
  generalize freeVcToward P s r = free
  generalize offset P.numCols r dest = o at hoff hcheck
  cases alg with
  | table | deflection | custom =>
    intro halg
    simp [meshAlgorithms] at halg
  | xy =>
    intro _ _
    simp only [meshOutport, outportComputeXY, hcheck, bind, Except.bind, pure, Except.pure]
    split_ifs
    all_goals first | exact ⟨_, rfl⟩ | exact absurd ⟨by omega, by omega⟩ hoff
  | random | westFirst =>
    intro _ _
    simp only [meshOutport, outportComputeRandom, outportComputeWestFirst, hcheck, bind, Except.bind,
      pure, Except.pure]
    split_ifs
    all_goals exact ⟨_, rfl⟩
  | adaptRand | adaptWestFirst =>
    intro _ hmore
    simp only [meshOutport, outportComputeAdaptRand, outportComputeAdaptWestFirst, hcheck, bind,
      Except.bind, pure, Except.pure]
    split_ifs
    all_goals first | exact ⟨_, rfl⟩ | exact hmore (by assumption) (by assumption)

theorem mem_routingTableEntry_extOut {n : Nat} (hn : n < P.numNodes) :
    n ∈ P.routingTableEntry (P.niRouter n) (.extOut n) := by
  refine mem_filter.mpr ⟨mem_range.mpr hn, decide_eq_true ?_⟩
  have hweight : P.topologyWeights (2 * P.numNodes + P.niRouter n) (P.numNodes + n) = 1 := by
    unfold Params.topologyWeights
    rw [if_neg (by omega), if_neg (by omega), if_neg (by omega), if_pos (by omega),
      if_pos (by rw [Nat.add_sub_cancel_left, Nat.add_sub_cancel_left])]
  show P.topologyWeights (2 * P.numNodes + P.niRouter n) (P.numNodes + n) +
    P.dist (P.numNodes + n) (P.numNodes + n) = _
  rw [hweight, (dist_separated P).self, dist_niRouter hn]

theorem routeCompute_ok (halg : P.routingAlgorithm ∈ meshAlgorithms) {route : RouteInfo}
    (hr : r < P.numRouters) (hroute : RouteOk P route) (s : Net) (rnd : Nat) :
    ∃ outport, routeCompute P s r route rnd = .ok outport := by
  unfold routeCompute outportCompute
  by_cases hdest : route.destRouter = r
  · -- the entry for the interface is a candidate, since all links weigh the same
    have hmem : (⟨.Local, .extOut route.destNi⟩ : Port) ∈ P.outports r :=
      mem_outports.mpr (.inl ⟨_, hroute.destNi_lt, hroute.destRouter ▸ hdest, rfl⟩)
    obtain ⟨j, hj⟩ := mem_iff_getElem?.mp hmem
    have hcand : j ∈ candidates (P.routingTable r) route.netDest := by
      refine mem_candidates.mpr ⟨(P.routingTableEntry r (.extOut route.destNi), 1), ?_,
        ⟨route.destNi, ?_, ?_⟩, ?_, ?_⟩
      · rw [Params.routingTable, getElem?_map, hj]
        rfl
      · rw [hroute.nodes]
        exact mem_singleton_self _
      · rw [← hdest, hroute.destRouter]
        exact mem_routingTableEntry_extOut hroute.destNi_lt
      · show 1 ≤ infinite
        decide
      · rintro e he -
        obtain ⟨q, -, rfl⟩ := mem_map.mp he
        exact le_refl _
    rw [if_pos hdest]
    exact exists_lookup hcand _ rnd
  · obtain ⟨dirn, hdirn⟩ := meshOutport_ok halg hr hroute.destRouter_lt (Ne.symm hdest) s rnd
    rw [if_neg hdest, hdirn]
    exact ⟨_, rfl⟩

variable {q : Port}

theorem doSwapEnqueue_ok {rnd fOut : Nat} {i : Option Int} {k : Nat}
    (hdirn : dirn ≠ .Local ∨ (P.whichToSwap = .enableLocalSwap ∧ i.isSome = true))
    (hroute : routeCompute P s r f.route rnd = .ok fOut)
    (hin : enqueueInport P r f dirn i = .ok (k : Int)) (hq : (P.inports r)[k]? = some q)
    (hv : v < P.numVcs) :
    doSwapEnqueue P r f dirn i v rnd s = .ok (s.setBuf (.inputVc q.link v)
      (swappedFlit P r f fOut v :: s.buf (.inputVc q.link v))) := by
  have hvcid : (v : Int) ≠ -1 := by omega
  simp [doSwapEnqueue, require, hdirn, hroute, hvcid, hin, inVc, inPort, orFail, hq, hv, bind,
    Except.bind, pure, Except.pure, swappedFlit]

abbrev facingVc (u : Nat) (f : Flit) (v : Nat) : Buf := .inputVc (.int u f.outportDir) v

theorem BoundPointed.places (h : BoundPointed P u s p v f fs d) :
    Buf.inputVc p.link v ∈ places P ∧ facingVc u f v ∈ places P ∧
      Buf.inputVc p.link v ≠ facingVc u f v := by
  have hd := nbr_lt h.router_lt h.nbr
  have hport := h.toPointed.port_mem
  have hface := mem_of_getElem? (facing_inport h.router_lt h.nbr)
  refine ⟨inputVc_mem_places h.router_lt hport h.ptr.vc_lt,
    inputVc_mem_places hd hface h.ptr.vc_lt, fun he => ?_⟩
  exact inport_link_ne h.router_lt hd (nbr_ne h.nbr) hport hface (Buf.inputVc.inj he).1

/-- `doSwap` changes nothing but the statistics, or puts `f` in the place of the flit it returns. -/
theorem doSwap_cases (halg : P.routingAlgorithm ∈ meshAlgorithms) (h1 : P.noIsSwap = 1)
    (h : BoundPointed P u s p v f fs d) (hvc : f.vc = v) (hroute : RouteOk P f.route) (rnd : Nat) :
    (∃ x, doSwap P f u rnd s = .ok (none, s.setStats x)) ∨
    ∃ g gs fOut, s.buf (facingVc u f v) = g :: gs ∧ RoutesTo P d f.route fOut ∧
      doSwap P f u rnd s = .ok (some g, s.setBuf (facingVc u f v)
        (swappedFlit P d { f with routedSwap := true } fOut v :: gs)) := by
  subst hvc
  have hd := nbr_lt h.router_lt h.nbr
  have hdirn := mesh_ne_local (getDownstreamDirn_isMesh (nbr_isMesh h.nbr))
  have h0 : ¬ P.noIsSwap = 0 := by omega
  have hin : inVc P d (Params.dirn2idx (P.inports d) (getDownstreamDirn f.outportDir)) f.vc =
      .ok (⟨getDownstreamDirn f.outportDir, .int u f.outportDir⟩, f.vc) := by
    simp [inVc, inPort_facing h.router_lt h.nbr, require, h.ptr.vc_lt, bind, Except.bind, pure,
      Except.pure]
  have hval : require Fault.noIsSwapValue (P.noIsSwap = 0 ∨ P.noIsSwap = 1) = .ok () :=
    if_pos (.inr h1)
  unfold doSwap
  simp only [downstream_of_nbr h.router_lt h.nbr, hval, bind, Except.bind]
  simp only [h0, false_implies, true_and, if_false, pure, Except.pure]
  by_cases hgo : (s.router d).swapPtr.valid = true
  · simp only [h0, hgo, if_true, h.ptr.vcid, routerDoSwap, require, ne_eq, hdirn, not_false_eq_true,
      decide_false, Bool.false_and, Bool.false_eq_true, if_false, bind, Except.bind, hin, pure,
      Except.pure]
    cases hb : s.buf (.inputVc (.int u f.outportDir) f.vc) with
    | nil => exact .inl ⟨_, rfl⟩
    | cons g gs =>
      by_cases hg : g.outportDir = .Local
      · simp only [hg, if_true]
        exact .inl ⟨s.stats, rfl⟩
      · simp only [hg, if_false]
        -- the facing channel without its head
        obtain ⟨fOut, hfo⟩ := routeCompute_ok halg hd hroute
          (s.setBuf (.inputVc (.int u f.outportDir) f.vc) gs) rnd
        have hput := doSwapEnqueue_ok (v := f.vc) (f := { f with routedSwap := true }) (i := none)
          (.inl hdirn) hfo rfl (facing_inport h.router_lt h.nbr) h.ptr.vc_lt
        rw [hput]
        refine .inr ⟨g, gs, fOut, rfl, ⟨_, _, hfo⟩, ?_⟩
        simp [Net.setBuf]
  · simp only [hgo, Bool.false_eq_true, if_false]
    exact .inl ⟨s.stats, rfl⟩

structure OnlyBuf (s s' : Net) (buf : Buf → List Flit) : Prop where
  buf : s'.buf = buf
  vc : s'.vc = s.vc
  outVc : s'.outVc = s.outVc
  credits : s'.credits = s.credits

section

variable (h1 : P.noIsSwap = 1) (r : Nat) (s : Net)
include h1

theorem routedSwapCheck_ok : routedSwapCheck P r s = .ok () :=
  if_pos fun h0 => absurd h0 (by omega)

theorem endRoutedSwap_ok : ∃ s', endRoutedSwap P r s = .ok s' ∧ OnlyBuf s s' s.buf := by
  unfold endRoutedSwap
  split_ifs
  · rw [routedSwapCheck_ok h1]
    exact ⟨_, rfl, rfl, rfl, rfl, rfl⟩
  · exact ⟨_, rfl, rfl, rfl, rfl, rfl⟩

theorem failSwap_ok : ∃ s', failSwap P r s = .ok s' ∧ OnlyBuf s s' s.buf := by
  unfold failSwap
  dsimp only
  split_ifs
  · rw [routedSwapCheck_ok h1]
    exact ⟨_, rfl, rfl, rfl, rfl, rfl⟩
  · exact ⟨_, rfl, rfl, rfl, rfl, rfl⟩

end

variable {g : Flit}

theorem finishSwap_ok (halg : P.routingAlgorithm ∈ meshAlgorithms) (h1 : P.noIsSwap = 1)
    (h : Pointed P u s p v f fs) (hroute : RouteOk P g.route)
    (hloc : P.whichToSwap = .disableLocalSwap → p.dirn ≠ .Local) (rnd : Nat) :
    ∃ gOut s', RoutesTo P u g.route gOut ∧ finishSwap P u p v f g rnd s = .ok s' ∧
      OnlyBuf s s'
        (update s.buf (.inputVc p.link v) (swappedFlit P u g gOut v :: fs)) := by
  have hdirn : p.dirn ≠ .Local ∨ (P.whichToSwap = .enableLocalSwap ∧
      (some (s.router u).swapPtr.inport).isSome = true) := by
    cases hw : P.whichToSwap with
    | disableLocalSwap => exact .inl (hloc hw)
    | enableLocalSwap => exact .inr ⟨rfl, rfl⟩
  have hin : enqueueInport P u g p.dirn (some (s.router u).swapPtr.inport) =
      .ok ((s.router u).swapPtr.inport.toNat : Int) := by
    have h0 : P.noIsSwap = 0 → g.routedSwap = false := fun h0 => absurd h0 (by omega)
    have hidx : Params.idx2dirn (P.inports u) (s.router u).swapPtr.inport.toNat = p.dirn := by
      rw [Params.idx2dirn, h.ptr.port]
    simp only [enqueueInport, require, if_pos h0, if_pos hidx, bind, Except.bind, pure, Except.pure,
      Int.toNat_of_nonneg h.ptr.inport_nonneg]
  obtain ⟨gOut, hgo⟩ := routeCompute_ok halg h.router_lt hroute
    (s.setBuf (.inputVc p.link v) (s.buf (.inputVc p.link v)).tail) rnd
  have hput := doSwapEnqueue_ok hdirn hgo hin h.ptr.port h.ptr.vc_lt
  unfold finishSwap
  simp only [Net.setBuf_router, h.ptr.vcid, hput, bind, Except.bind]
  obtain ⟨s', hs', hsame⟩ := endRoutedSwap_ok h1 u _
  refine ⟨gOut, s', ⟨_, _, hgo⟩, hs', ?_, hsame.vc, hsame.outVc, hsame.credits⟩
  rw [hsame.buf]
  show update (update s.buf (.inputVc p.link v) (s.buf (.inputVc p.link v)).tail)
    (.inputVc p.link v) (swappedFlit P u g gOut v :: update s.buf (.inputVc p.link v)
      (s.buf (.inputVc p.link v)).tail (.inputVc p.link v)) = _
  rw [update_self, update_idem, h.head, tail_cons]

theorem manhattan_hop (h : P.nbr r dirn = some w) (dest : Nat) :
    manhattan P w dest + 1 = manhattan P r dest ∨ manhattan P w dest = manhattan P r dest + 1 := by
  have hhop := nbr_coords h
  simp only [manhattan, offset]
  cases dirn <;> simp only [HopCoords, Params.col, Params.row] at hhop <;> omega

def Buf.at (P : Params) : Buf → Nat
  | .niOutVc n _ | .stallQueue n => P.niRouter n
  | .switchBuffer r _ => r
  | .srcQueue l | .linkBuffer l | .inputVc l _ =>
    match P.linkConsumer l with
    | .router r => r
    | .ni n => P.niRouter n

def remaining (P : Params) (b : Buf) (f : Flit) : Nat := manhattan P (b.at P) f.route.destRouter

def totalDistance (P : Params) (s : Net) : Nat := tally (places P) (remaining P) s.buf

theorem at_inputVc (hr : r < P.numRouters) (hq : q ∈ P.inports r) (v : Nat) :
    (Buf.inputVc q.link v).at P = r := by
  simp only [Buf.at, inport_consumer hr hq]

structure Exchanged (P : Params) (u d v : Nat) (p : Port) (f g : Flit) (fs gs : List Flit)
    (t t' : Net) : Prop where
  head : t.buf (facingVc u f v) = g :: gs
  swapped : ∃ fOut gOut, RoutesTo P d f.route fOut ∧ RoutesTo P u g.route gOut ∧
    OnlyBuf t t' (update
      (update t.buf (.inputVc p.link v) (swappedFlit P u g gOut v :: fs))
      (facingVc u f v) (swappedFlit P d { f with routedSwap := true } fOut v :: gs))

theorem Exchanged.distance {gs : List Flit} {t' : Net}
    (h : Exchanged P u d v p f g fs gs t t') (hpt : BoundPointed P u t p v f fs d)
    (hnear : manhattan P d f.route.destRouter + 1 = manhattan P u f.route.destRouter) :
    (manhattan P u g.route.destRouter + 1 = manhattan P d g.route.destRouter ∧
      totalDistance P t' + 2 = totalDistance P t) ∨
    (manhattan P u g.route.destRouter = manhattan P d g.route.destRouter + 1 ∧
      totalDistance P t' = totalDistance P t) := by
  have hd := nbr_lt hpt.router_lt hpt.nbr
  have hmem := mem_of_getElem? (facing_inport hpt.router_lt hpt.nbr)
  obtain ⟨fOut, gOut, -, -, hbuf⟩ := h.swapped
  obtain ⟨hplace, hplace', hplaces⟩ := hpt.places
  have hsum := tally_exchange (w := remaining P)
    (swappedFlit P d { f with routedSwap := true } fOut v) (swappedFlit P u g gOut v) hplace hplace'
    hplaces hpt.head h.head
  rw [← hbuf.buf] at hsum
  have hu : (Buf.inputVc p.link v).at P = u := at_inputVc hpt.router_lt hpt.toPointed.port_mem v
  have hd' : (facingVc u f v).at P = d := at_inputVc hd hmem v
  simp only [remaining, hu, hd', swappedFlit] at hsum
  rw [totalDistance, totalDistance]
  rcases manhattan_hop (nbr_symm hpt.router_lt hpt.nbr) g.route.destRouter with hg | hg
  · exact .inl ⟨hg, by omega⟩
  · exact .inr ⟨hg, by omega⟩

def swapCalled (u : Nat) (f : Flit) (t : Net) : Net :=
  if f.routedSwap then
    t.initiated.setRouter u { t.router u with sendRoutedSwap := true }
  else t.initiated

theorem trySwap_eq (h1 : P.noIsSwap = 1) (h : Pointed P u t p v f fs) (rnd : Nat → Nat) :
    trySwap P u rnd t = doSwap P f u (rnd 0) (swapCalled u f t) >>= fun res =>
      match res.1 with
      | some g => finishSwap P u p v f g (rnd 1) res.2
      | none => failSwap P u res.2 := by
  have hcheck : checkBailOut P u t.initiated = .ok t.initiated := by
    rw [checkBailOut, if_neg (by omega), require, if_pos h1]
    rfl
  have hptr : PtrAt P u (t.initiated.router u).swapPtr p v := h.ptr
  have hhead : (t.initiated.buf (.inputVc p.link v)).head? = some f := by
    rw [show t.initiated.buf (.inputVc p.link v) = f :: fs from h.head]
    rfl
  have hmark : markRouted P u f t.initiated = .ok (swapCalled u f t) := by
    unfold markRouted swapCalled
    rw [routedSwapCheck_ok h1]
    split_ifs <;> rfl
  show (checkBailOut P u t.initiated >>= _) = _
  rw [hcheck]
  show (ptrVc P u t.initiated >>= _) = _
  rw [hptr.ptrVc_eq]
  show (orFail Fault.emptyBuffer (t.initiated.buf (.inputVc p.link v)).head? >>= _) = _
  rw [hhead]
  show (markRouted P u f t.initiated >>= _) = _
  rw [hmark]
  rfl

theorem swapCalled_fields (u : Nat) (f : Flit) (t : Net) : OnlyBuf t (swapCalled u f t) t.buf ∧
      ∀ r, ((swapCalled u f t).router r).swapPtr = (t.router r).swapPtr := by
  unfold swapCalled
  split_ifs
  · refine ⟨⟨rfl, rfl, rfl, rfl⟩, fun r => ?_⟩
    exact setRouter_swapPtr (s := t.initiated) (x := { t.router u with sendRoutedSwap := true }) rfl r
  · exact ⟨⟨rfl, rfl, rfl, rfl⟩, fun _ => rfl⟩

/-- **A swap is all or nothing.** Without the bit `is_swap`, an attempt changes nothing, or only
exchanges the flits at the heads of the facing channels and brings `f` one hop nearer. -/
theorem swap_all_or_nothing (halg : P.routingAlgorithm ∈ meshAlgorithms) (h1 : P.noIsSwap = 1)
    (h : Reachable P s) (hu : u < P.numRouters) (hat : Attempts P u s t) (rnd : Nat → Nat) :
    ∃ p v f fs d, BoundPointed P u t p v f fs d ∧ ∃ t', trySwap P u rnd t = .ok t' ∧
      (((∃ x, doSwap P f u (rnd 0) (swapCalled u f t) = .ok (none, x)) ∧ OnlyBuf t t' t.buf) ∨
      ∃ g gs, (∃ x, doSwap P f u (rnd 0) (swapCalled u f t) = .ok (some g, x)) ∧
        Exchanged P u d v p f g fs gs t t' ∧
        manhattan P d f.route.destRouter + 1 = manhattan P u f.route.destRouter ∧
        ((manhattan P u g.route.destRouter + 1 = manhattan P d g.route.destRouter ∧
          totalDistance P t' + 2 = totalDistance P t) ∨
        (manhattan P u g.route.destRouter = manhattan P d g.route.destRouter + 1 ∧
          totalDistance P t' = totalDistance P t))) := by
  obtain ⟨-, -, hv, -, p, v, f, fs, d, hpt⟩ := hat.turn hu
  refine ⟨p, v, f, fs, d, hpt, ?_⟩
  have hnames := hat.inductive (namesVc P) h hu
  obtain ⟨hroutes, hfresh⟩ := hat.inductive ((fresh halg).and (routeOk P)) h hu
  have hmem : f ∈ t.buf (.inputVc p.link v) := hpt.head ▸ mem_cons_self
  have hvc : f.vc = v := hnames _ f hmem
  have hport := hpt.toPointed.port_mem
  -- the pointer does not name a `Local` port where such ports take no part in swaps
  have hloc : P.whichToSwap = .disableLocalSwap → p.dirn ≠ .Local := by
    obtain ⟨p', v', hptr, -, -, hloc⟩ := (hat.pointersOk h hu).ptrAt hu hv
    obtain ⟨rfl, -⟩ := hpt.ptr.unique hptr
    exact hloc
  have hnear : manhattan P d f.route.destRouter + 1 = manhattan P u f.route.destRouter := by
    obtain ⟨o, -, hdir, hlead⟩ := hfresh _ f hmem u hu p hport rfl
    obtain ⟨w, hw, -, -, hman⟩ := hlead.nearer fun he =>
      hpt.bound (hdir.trans (hlead.isLocal.mpr he))
    rw [← hdir, hpt.nbr] at hw
    rwa [Option.some.inj hw]
  obtain ⟨hsame, hptrs⟩ := swapCalled_fields u f t
  have hcalled : BoundPointed P u (swapCalled u f t) p v f fs d :=
    ⟨hpt.toPointed.congr (hptrs u) (by rw [hsame.buf]; exact hpt.head) rfl, hpt.nbr⟩
  rw [trySwap_eq h1 hpt.toPointed]
  rcases doSwap_cases halg h1 hcalled hvc (hroutes _ f hmem) (rnd 0) with
    ⟨x, hx⟩ | ⟨g, gs, fOut, hhead, hfo, hx⟩
  · obtain ⟨t', ht', hfail⟩ := failSwap_ok h1 u ((swapCalled u f t).setStats x)
    rw [hx]
    refine ⟨t', ht', .inl ⟨⟨_, rfl⟩, ?_⟩⟩
    exact ⟨hfail.buf.trans hsame.buf, hfail.vc.trans hsame.vc, hfail.outVc.trans hsame.outVc,
      hfail.credits.trans hsame.credits⟩
  · rw [hsame.buf] at hhead
    have hg : g ∈ t.buf (facingVc u f v) := hhead ▸ mem_cons_self
    have hplaces := hpt.places.2.2
    have hgiven : Pointed P u ((swapCalled u f t).setBuf (facingVc u f v)
        (swappedFlit P d { f with routedSwap := true } fOut v :: gs)) p v f fs := by
      refine hcalled.toPointed.congr rfl ?_ rfl
      show update _ _ _ _ = _
      rw [update_of_ne hplaces]
      exact hcalled.head
    obtain ⟨gOut, t', hgo, ht', hfin⟩ :=
      finishSwap_ok halg h1 hgiven (hroutes _ g hg) hloc (rnd 1)
    have hex : Exchanged P u d v p f g fs gs t t' := by
      refine ⟨hhead, fOut, gOut, hfo, hgo, hfin.buf.trans ?_, hfin.vc.trans hsame.vc,
        hfin.outVc.trans hsame.outVc, hfin.credits.trans hsame.credits⟩
      show update (update (swapCalled u f t).buf _ _) _ _ = _
      rw [hsame.buf, update_comm hplaces.symm]
    rw [hx]
    exact ⟨t', ht', .inr ⟨g, gs, ⟨_, rfl⟩, hex, hnear, hex.distance hpt hnear⟩⟩

def Params.quadPlain : Params := { Params.quad with injSingleVnet := 0 }

/-- The row after `n` steps with messages for node `0`, from node `3` and, three cycles later, node
`2`. -/
def quadPlainRun (n : Nat) : Option Net :=
  let m : Message := ⟨0, 0, 0, 0, .singleton 0⟩
  (run .quadPlain [.protocol 3 (.send 0 m 1 0), .protocol 2 (.send 0 m 4 0)]
    (.init .quadPlain)).bind (simulate .quadPlain n)

/-- In cycle `10` router `2` swaps the flit of node `3`. -/
theorem swap_all_or_nothing_quad : ∃ s t', quadPlainRun 26 = some s ∧
    trySwap .quadPlain 2 (fun _ => 0) (s.fire (.router 2)) = .ok t' ∧
    totalDistance .quadPlain t' ≤ totalDistance .quadPlain s := by
  have hrun : (quadPlainRun 26).map (fun s => (decide (s.now % 4 = 2 ∧
      (s.router 2).swapPtr.valid = true),
      (outportNotLocal .quadPlain 2 (s.fire (.router 2))).toOption.map fun x => x.1)) =
      some (true, some true) := by
    decide +kernel
  obtain ⟨s, hs, hview⟩ := Option.map_eq_some_iff.mp hrun
  obtain ⟨hstate, hout⟩ := Prod.mk.inj hview
  obtain ⟨hturn, hv⟩ := of_decide_eq_true hstate
  have hreach : Reachable .quadPlain s := by
    unfold quadPlainRun at hs
    exact reachable_of_run_simulate _ .init hs
  have hat := attempts_of_valid (P := .quadPlain) rfl (by decide) hv (decide_eq_true hturn) hout
  obtain ⟨p, v, f, fs, d, -, t', ht', hcase⟩ := swap_all_or_nothing (by decide) (by decide) hreach
    (by decide) hat fun _ => 0
  refine ⟨s, t', hs, ht', ?_⟩
  have hfire : totalDistance .quadPlain (s.fire (.router 2)) = totalDistance .quadPlain s := rfl
  rcases hcase with ⟨-, hsame⟩ | ⟨g, gs, -, -, -, ⟨-, hsum⟩ | ⟨-, hsum⟩⟩
  · rw [totalDistance, hsame.buf]
    exact le_refl _
  · omega
  · omega

end NocSwap
