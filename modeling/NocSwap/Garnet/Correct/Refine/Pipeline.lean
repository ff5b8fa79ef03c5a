import NocSwap.Garnet.Correct.Refine.Links

/-!
# The pipeline of a router as moves
-/

namespace NocSwap

open Function List Net Nat

variable {P : Params} {c : Consumer} {s s' : Net}

/-! ### Faults of the functions that the pipeline and the swaps share -/

theorem downstream_faults (dirn : PortDirection) (u : Nat) :
    Outcome (downstream P dirn u) (fun _ => True) (· ∈ downstreamFaults) := by
  simp only [downstream, outcome_do]
  cases dirn <;> simp [getDownstreamId, downstreamFaults]

theorem freeVcToward_faults (s : Net) (r : Nat) (dirn : PortDirection) :
    Outcome (freeVcToward P s r dirn) (fun _ => True) (· ∈ routingFaults) := by
  simp only [freeVcToward, getNumFreeVc, inPort, outcome_do]
  refine (downstream_faults dirn r).mono (fun _ _ => ?_) (fun _ => mem_append_right _)
  refine ⟨fun _ => ⟨fun _ => ⟨fun _ _ => ?_, ?_⟩, ?_⟩, ?_⟩
  all_goals exact fun _ => by decide

theorem moreFree_faults (o : Offset) (rnd : Nat) (s : Net) (r : Nat) :
    Outcome (moreFree o rnd (freeVcToward P s r)) (fun _ => True) (· ∈ routingFaults) := by
  simp only [moreFree, outcome_do]
  exact (freeVcToward_faults ..).imp
    fun _ _ => (freeVcToward_faults ..).imp fun _ _ => trivial

theorem routeCompute_faults (s : Net) (r : Nat) (route : RouteInfo) (rnd : Nat) :
    Outcome (routeCompute P s r route rnd) (fun _ => True) (· ∈ routingFaults) := by
  have htable : Outcome (lookupRoutingTable (P.routingTable r) (P.isVNetOrdered route.vnet)
      route.netDest rnd) (fun _ => True) (· ∈ routingFaults) := by
    simp only [lookupRoutingTable, outcome_orFail]
    exact ⟨fun _ _ => trivial, fun _ => by decide⟩
  have hmore := moreFree_faults (P := P) (offset P.numCols r route.destRouter) rnd s r
  have hreached : Fault.destinationReached ∈ routingFaults := by decide
  have hcustom : Fault.customRouting ∈ routingFaults := by decide
  unfold routeCompute outportCompute
  simp only [outcome_ite]
  refine ⟨fun _ => htable, fun _ => ?_⟩
  cases P.routingAlgorithm with
  | table | deflection => exact htable
  | _ =>
    simp [meshOutport, outportComputeXY, outportComputeRandom, outportComputeAdaptRand,
      outportComputeWestFirst, outportComputeAdaptWestFirst, Offset.check, hreached, hcustom, hmore]

theorem scanVcs_faults (w : SwapPtr.View) (p : Nat) (n : Nat) :
    ∀ vcid invc : Int, Outcome (SwapPtr.scanVcs w p n vcid invc) (fun _ => True)
      (· ∈ movSwapPtrFaults) := by
  induction n with
  | zero => exact fun _ _ => trivial
  | succ n ih =>
    intro vcid invc
    simp only [SwapPtr.scanVcs, outcome_do, outcome_ite]
    exact ⟨fun _ _ => ih _ _, fun _ => by decide⟩

theorem scanInports_faults (w : SwapPtr.View) (n : Nat) :
    ∀ (sp : SwapPtr) (invc : Int), Outcome (SwapPtr.scanInports w n sp invc) (fun _ => True)
      (· ∈ movSwapPtrFaults) := by
  induction n with
  | zero => exact fun _ _ => trivial
  | succ n ih =>
    intro sp invc
    simp only [SwapPtr.scanInports, outcome_do, outcome_ite]
    refine ⟨fun _ => ⟨fun _ _ => ⟨fun _ => ih _ _, fun _ => ?_⟩, fun _ => by decide⟩,
      fun _ => by decide⟩
    exact (scanVcs_faults ..).imp fun _ _ => fun _ => ih _ _

theorem movSwapPtr_faults (w : SwapPtr.View) (sp : SwapPtr) :
    Outcome (SwapPtr.movSwapPtr w sp) (fun _ => True) (· ∈ movSwapPtrFaults) := by
  simp only [SwapPtr.movSwapPtr, outcome_do, outcome_ite]
  refine (scanInports_faults ..).imp fun _ _ => ?_
  refine ⟨fun _ => ⟨fun _ _ => ⟨fun _ _ => ⟨fun _ => ⟨fun _ => ⟨fun _ => ?_,
    ?_⟩, ?_⟩, ?_⟩, ?_⟩, ?_⟩, ?_⟩
  all_goals exact fun _ => by decide

theorem Net.setSwapPtr_self (s : Net) (r : Nat) : s.setSwapPtr r (s.router r).swapPtr = s := by
  simp [setSwapPtr, setRouter]

theorem makeSwapPtrValid_outcome (r : Nat) (dirn : PortDirection) (f : Flit) (s : Net) :
    Outcome (makeSwapPtrValid P r dirn f s)
      (fun s' => s' = s.setSwapPtr r (arrivePtr P r dirn f.outportDir f.vc (s.router r).swapPtr))
      (fun e => e = .makeSwapPtrVcid ∧ (s.router r).swapPtr.valid = false ∧
        (s.router r).swapPtr.vcid ≠ -1) := by
  unfold makeSwapPtrValid arrivePtr
  by_cases hv : (s.router r).swapPtr.valid = true
  · simp only [hv, if_true, outcome_pure]
    exact (s.setSwapPtr_self r).symm
  by_cases hm : (dirn.isMesh && f.outportDir.isMesh) = true
  · simp only [hv, hm, if_true, if_false, SwapPtr.makeSwapPtrValid, outcome_do, Bool.false_eq_true]
    have hl : dirn ≠ .Local := by
      rintro rfl
      simp [PortDirection.isMesh] at hm
    exact ⟨fun _ => ⟨fun _ => fun h => absurd hl h,
      fun h => h⟩, fun h => absurd trivial h⟩
  · simp only [hv, hm, if_false, outcome_pure, Bool.false_eq_true]
    exact (s.setSwapPtr_self r).symm

theorem receiveFlit_runs {r : Nat} {p : Port} {f : Flit} {fs : List Flit} (hr : r < P.numRouters)
    (hp : p ∈ P.inports r) (rnd : Nat) (hb : s.buf (.linkBuffer p.link) = f :: fs)
    (ht : f.time ≤ s.now) :
    Runs P (.router r) s (receiveFlit P r p rnd f (s.setBuf (.linkBuffer p.link) fs)) := by
  have hmem : f ∈ s.buf (.linkBuffer p.link) := hb ▸ mem_cons_self ..
  simp only [Runs, receiveFlit, outcome_do]
  refine ⟨fun _ => ⟨fun hvc => ⟨fun hidle => ?_, fun h => ?_⟩, ?_⟩, ?_⟩
  case refine_2 => exact .of_fault (.vcNotIdle hr hp hb hvc h)
  case refine_3 => exact fun _ => .of_fault (.other (by decide))
  case refine_4 => exact fun _ => .of_fault (.other (by decide))
  refine Outcome.intro (fun outport hout => ?_) (fun e he => ?_)
  case refine_2 => exact .of_fault (.routing hr hmem rfl he ((routeCompute_faults ..).of_error he))
  simp only [outPort, outcome_orFail]
  refine ⟨fun o ho => ⟨fun _ => ?_, fun _ => .of_fault (.other (by decide))⟩,
    fun _ => .of_fault (.other (by decide))⟩
  refine (makeSwapPtrValid_outcome ..).mono ?_ ?_
  case refine_2 =>
    rintro e ⟨rfl, hv, hid⟩
    exact .of_fault (.makeSwapPtrVcid hr hv hid)
  rintro t rfl
  by_cases hlat : P.routerLatency r = 1
  · simp only [hlat, if_true, outcome_pure]
    refine .one ?_
    have h := Move.arrive (P := P) (s := s) ⟨hr, hp, hb, ht, hvc, hidle, ⟨_, _, hout⟩, ho,
      fun h => absurd hlat h⟩
    convert h using 1
    simp [Net.insert, setBuf, setVc, setSwapPtr, setRouter, arrivedFlit, hlat]
    exact ⟨rfl, rfl, rfl⟩
  · simp only [hlat, if_false, outcome_do]
    refine ⟨fun h1 => ?_, fun _ => .of_fault (.other (by decide))⟩
    refine .sched_first (.router r) (s.now + (P.routerLatency r - 1)) ?_
    have h := Move.arrive (P := P) (s := s.schedule (.router r) (s.now + (P.routerLatency r - 1)))
      ⟨hr, hp, hb, ht, hvc, hidle, ⟨_, _, hout⟩, ho,
        fun _ => ⟨h1, s.mem_scheduled _ (Nat.le_add_right ..)⟩⟩
    convert h using 1
    simp [Net.insert, setBuf, setVc, setSwapPtr, setRouter, arrivedFlit, schedule]
    exact ⟨rfl, rfl, rfl⟩

theorem inputUnitWakeup_runs {r : Nat} {p : Port} (hr : r < P.numRouters) (hp : p ∈ P.inports r)
    (rnd : Nat) (s : Net) : Runs P (.router r) s (inputUnitWakeup P r p rnd s) := by
  unfold inputUnitWakeup
  cases hb : s.buf (.linkBuffer p.link) with
  | nil => exact Moves.rfl'
  | cons f fs =>
    by_cases ht : f.time ≤ s.now
    · simp only [ht, if_true]
      exact receiveFlit_runs hr hp rnd hb ht
    · simp only [ht, if_false]
      exact Moves.rfl'

theorem Params.vc_lt {vnet i : Nat} (hn : vnet < P.virtualNetworks) (hi : i < P.vcsPerVnet) :
    vnet * P.vcsPerVnet + i < P.numVcs := by
  have h : (vnet + 1) * P.vcsPerVnet ≤ P.virtualNetworks * P.vcsPerVnet :=
    Nat.mul_le_mul_right _ hn
  rw [succ_mul] at h
  unfold Params.numVcs
  omega

/-- A request `q` stands: the flit at the head of its channel is ready and asks for its output port.
-/
def ReqStands (P : Params) (r : Nat) (s : Net) (q : Nat × Nat × Nat) : Prop :=
  ∃ p f fs, (P.inports r)[q.2.1]? = some p ∧ s.buf (.inputVc p.link q.2.2) = f :: fs ∧
    f.outport = q.1 ∧ f.isStage .sa s.now = true

theorem mem_of_findGrant {reqs : Requests} {outport numInports : Nat} (itr : Nat) :
    ∀ inport i v, findGrant reqs outport numInports itr inport = some (i, v) →
      (outport, i, v) ∈ reqs := by
  induction itr with
  | zero => exact fun _ _ _ h => nomatch h
  | succ itr ih =>
    intro inport i v h
    simp only [findGrant] at h
    cases hq : reqs.find? fun q => decide (q.1 = outport ∧ q.2.1 = inport) with
    | none =>
      rw [hq] at h
      exact ih _ _ _ h
    | some q =>
      rw [hq] at h
      obtain ⟨rfl, rfl⟩ := Prod.mk.inj (Option.some.inj h)
      have hmem := mem_of_find?_eq_some hq
      have hcond := find?_some hq
      obtain ⟨rfl, rfl⟩ := of_decide_eq_true hcond
      exact hmem

theorem clearRoutedSwap_outcome (r : Nat) (f : Flit) (s : Net) : Outcome (clearRoutedSwap P r f s)
      (fun res => (P.interswap = true → f.routedSwap = true → P.noIsSwap = 0 →
          (s.router r).isSwap = true) ∧
        res = ({ f with routedSwap := if P.interswap && f.routedSwap then false else f.routedSwap },
          s.setRouter r { s.router r with
            isSwap := if P.interswap && f.routedSwap then false else (s.router r).isSwap }))
      (fun e => (e = .grantIsSwap ∧ f.routedSwap = true ∧ P.noIsSwap = 0 ∧
          (s.router r).isSwap = false) ∨
        (e = .grantSendRoutedSwap ∧ (s.router r).sendRoutedSwap = true)) := by
  unfold clearRoutedSwap
  by_cases h : (P.interswap && f.routedSwap) = true
  · have hf : f.routedSwap = true := (Bool.and_eq_true _ _ ▸ h).2
    simp only [h, if_true, outcome_do, setRouter_router, update_self, Bool.not_eq_false]
    refine ⟨fun hi => ⟨fun _ _ _ => hi, fun hs => .inr hs⟩,
      fun hi => ?_⟩
    rw [Classical.not_imp] at hi
    exact .inl ⟨hf, hi.1, by simpa using hi.2⟩
  · simp only [h, if_false, Bool.false_eq_true, outcome_pure, setRouter]
    refine ⟨fun hi hf => absurd (by simp [hi, hf]) h, ?_⟩
    rw [update_eq_self]

theorem moveGrantedPtr_outcome (r i v : Nat) (s : Net) : Outcome (moveGrantedPtr P r i v s)
      (fun s' => ∃ sp, GrantPtr P r i v s.buf (s.router r).swapPtr sp ∧ s' = s.setSwapPtr r sp)
      (fun e => 0 ≤ (s.router r).swapPtr.inport ∧
        SwapPtr.movSwapPtr (ptrView P r s.buf) (s.router r).swapPtr = .error e) := by
  unfold moveGrantedPtr
  by_cases h : (P.interswap && decide ((s.router r).swapPtr.inport = i ∧
      (s.router r).swapPtr.vcid = v)) = true
  · simp only [h, if_true, movSwapPtr, outcome_do, GrantPtr]
    refine Outcome.intro (fun sp hsp => ⟨sp, hsp, rfl⟩) (fun e he => ⟨?_, he⟩)
    have := (of_decide_eq_true (Bool.and_eq_true _ _ ▸ h).2).1
    omega
  · simp only [h, if_false, Bool.false_eq_true, outcome_pure, GrantPtr]
    exact ⟨_, rfl, (s.setSwapPtr_self r).symm⟩

theorem releaseVc_outcome (l : Link) (v : Nat) (f : Flit) (s : Net) : Outcome (releaseVc l v f s)
      (fun s' => s' = ({ s with
        vc := if f.isTail then set2 s.vc l v ((s.vc l v).setIdle s.now) else s.vc
        credits := update s.credits (.queue l)
          (insertCredit ⟨v, f.isTail, s.now⟩ (s.credits (.queue l))) } : Net).schedule
            (.creditLink l) (s.now + 1)) (fun e => e = .grantVcReady) := by
  unfold releaseVc
  cases hf : f.isTail with
  | true =>
    simp only [if_true, outcome_do]
    exact fun _ => rfl
  | false => exact rfl

theorem selectFreeVc_eq_some {l : Link} {vnet w : Nat} (h : selectFreeVc P s l vnet = some w) :
    (∃ i < P.vcsPerVnet, w = vnet * P.vcsPerVnet + i) ∧ (s.outVc l w).state = .idle := by
  have hmem := mem_of_find?_eq_some h
  have hidle := find?_some h
  rw [mem_map] at hmem
  obtain ⟨i, hi, rfl⟩ := hmem
  exact ⟨⟨i, mem_range.mp hi, rfl⟩, (of_decide_eq_true hidle).1⟩

section Allocator

variable {r : Nat} (hr : r < P.numRouters)
include hr

theorem needStage_outcome {p : Port} (hp : p ∈ P.inports r) (v : Nat) (stage : FlitStage)
    {time : Nat} (ht : s.now ≤ time) :
    Outcome (needStage s p.link v stage time)
      (fun b => b = true ↔ ∃ f fs, s.buf (.inputVc p.link v) = f :: fs ∧ f.time ≤ time ∧
        f.isStage stage time = true) (FaultAt P s) := by
  unfold needStage
  cases hb : s.buf (.inputVc p.link v) with
  | nil => simp
  | cons f fs =>
    by_cases hf : f.time ≤ time
    · simp only [hf, if_true, outcome_do]
      refine ⟨fun _ => by simp [hf], fun h => .needStage hr hp hb fun h' => h ⟨h'.1, ?_⟩⟩
      exact h'.2.trans ht
    · simp [hf]

theorem sendAllowed_outcome {p : Port} (hp : p ∈ P.inports r) (invc outport : Nat) :
    Outcome (sendAllowed P s r p.link invc outport) (fun _ => True) (FaultAt P s) := by
  have hother {e : Fault} (h : e = .vnetOutOfRange ∨ e = .portOutOfRange) : FaultAt P s e :=
    .other (by rcases h with rfl | rfl <;> decide)
  simp only [sendAllowed, getVnet, outPort, outcome_do, outcome_ite]
  refine ⟨fun _ => ⟨fun o _ _ _ => ?_, fun _ => hother (.inr rfl)⟩, fun _ => hother (.inl rfl)⟩
  let v (i : Nat) := invc / P.vcsPerVnet * P.vcsPerVnet + i
  refine Outcome.imp (Outcome.anyM (T := fun i =>
    (∃ f fs, s.buf (.inputVc p.link (v i)) = f :: fs ∧ f.time ≤ s.now ∧
      f.isStage .sa s.now = true) ∧ (s.vc p.link (v i)).outputPort = outport ∧
      (s.vc p.link (v i)).enqueueTime < (s.vc p.link invc).enqueueTime) fun i hi => ?_) fun _ _ => trivial
  rw [outcome_bind]
  refine (needStage_outcome hr hp (v i) _ le_rfl).imp fun b hb => ?_
  cases b with
  | true =>
    simp only [if_true, outcome_pure, decide_eq_true_eq]
    exact ⟨fun h => ⟨hb.mp rfl, h⟩, fun h => h.2⟩
  | false => simpa using fun f fs h ht hst => absurd (hb.mpr ⟨f, fs, h, ht, hst⟩) (by simp)

theorem findRequest_outcome {i : Nat} {p : Port} (hp : (P.inports r)[i]? = some p) (itr : Nat) :
    ∀ invc, Outcome (findRequest P s r p.link itr invc)
      (fun res => ∀ q, res = some q → ReqStands P r s (q.1, i, q.2)) (FaultAt P s) := by
  have hmem := mem_of_getElem? hp
  induction itr with
  | zero => exact fun _ _ h => nomatch h
  | succ itr ih =>
    intro invc
    simp only [findRequest, outcome_bind]
    refine (needStage_outcome hr hmem invc _ le_rfl).imp fun b hready => ?_
    cases b with
    | false => exact ih _
    | true =>
      obtain ⟨f, fs, hf, -, hst⟩ := hready.mp rfl
      simp only [if_true, outcome_do, hf, head?_cons]
      refine ⟨fun g hg => (sendAllowed_outcome hr hmem _ _).imp fun b _ => ?_,
        fun _ => .other (by decide)⟩
      cases hg
      cases b with
      | false => exact ih _
      | true =>
        rintro q ⟨⟩
        exact ⟨p, f, fs, hp, hf, rfl, hst⟩

theorem arbitrateInports_outcome (s : Net) : Outcome (arbitrateInports P r s)
      (fun res => Moves P (.router r) s res.1 ∧ (∀ q ∈ res.2, ReqStands P r res.1 q) ∧
        res.2.Pairwise fun q q' => q.2.1 ≠ q'.2.1) (Fails P (.router r) s) := by
  let I (k : Nat) (acc : Net × Requests) : Prop :=
    Moves P (.router r) s acc.1 ∧ acc.1.buf = s.buf ∧ acc.1.now = s.now ∧
      (∀ q ∈ acc.2, ReqStands P r s q ∧ q.2.1 < k) ∧ acc.2.Pairwise fun q q' => q.2.1 ≠ q'.2.1
  unfold arbitrateInports
  refine (Outcome.foldlM_zipIdx (I := I) (E := Fails P (.router r) s) (P.inports r) 0 ?_ (s, [])
    ⟨.rfl', rfl, rfl, by simp, by simp⟩).imp fun res h => ⟨h.1, fun q hq => ?_, h.2.2.2.2⟩
  case refine_2 =>
    obtain ⟨p, f, fs, hp, hf⟩ := (h.2.2.2.1 q hq).1
    exact ⟨p, f, fs, hp, by rwa [h.2.1, h.2.2.1]⟩
  rintro i p hp ⟨t, reqs⟩ ⟨ht, hbuf, hnow, hreqs, hpair⟩
  simp only [Nat.zero_add] at hreqs ⊢
  rw [outcome_bind]
  refine (findRequest_outcome hr hp _ _).mono (fun res hres => ?_)
    (fun _ he => .after ht (.of_fault he))
  have hlt : ∀ q ∈ reqs, ReqStands P r s q ∧ q.2.1 < i + 1 :=
    fun q hq => ⟨(hreqs q hq).1, lt_succ_of_lt (hreqs q hq).2⟩
  rcases res with _ | ⟨outport, invc⟩
  · exact ⟨ht, hbuf, hnow, hlt, hpair⟩
  · refine ⟨ht.then (.routerRegs r _ ⟨rfl, rfl, rfl⟩), hbuf, hnow, ?_, ?_⟩
    · rintro q (_ | ⟨_, hq⟩)
      · obtain ⟨p', f, fs, hp', hf⟩ := hres _ rfl
        exact ⟨⟨p', f, fs, hp', by rwa [← hbuf, ← hnow]⟩, lt_succ_self i⟩
      · exact hlt q hq
    · exact pairwise_cons.mpr ⟨fun q hq => (hreqs q hq).2.ne', hpair⟩

theorem grant_outcome {i v o : Nat} (hq : ReqStands P r s (o, i, v)) : Outcome (grant P r i v o s)
      (fun s' => Moves P (.router r) s s' ∧ s'.now = s.now ∧ ∀ q ∈ P.inports r,
        (P.inports r)[i]? ≠ some q → ∀ w, s'.buf (.inputVc q.link w) = s.buf (.inputVc q.link w))
      (Fails P (.router r) s) := by
  obtain ⟨p, f, fs, hp, hf, hfo, hst⟩ := hq
  have hmem := mem_of_getElem? hp
  have hother {e : Fault} (h : e ∈ [Fault.portOutOfRange, .vcOutOfRange, .outvcSet,
      .vnetOutOfRange, .noFreeVc, .emptyBuffer, .grantVcReady]) : Fails P (.router r) s e :=
    .of_fault (.other (by revert h; revert e; decide))
  simp only [grant, inVc, inPort, outPort, getVnet, outcome_do, Int.toNat_natCast, hp,
    Option.some.injEq, forall_eq']
  refine ⟨fun _ => ⟨⟨fun hv => ⟨fun op hop => ⟨fun _ => ⟨fun hn => ⟨fun w hw => ?_, ?_⟩, ?_⟩, ?_⟩,
    ?_⟩, ?_⟩, ?_⟩, ?_⟩
  all_goals try exact fun _ => hother (by decide)
  have hvlt : v < P.numVcs := by exact_mod_cast hv.2
  obtain ⟨⟨k, hk, hwk⟩, hidle⟩ := selectFreeVc_eq_some hw
  simp only [setOutVc_buf, hf, head?_cons, Option.some.injEq, forall_eq', reduceCtorEq,
    false_implies, and_true]
  refine (clearRoutedSwap_outcome ..).mono ?_ ?_
  case refine_2 =>
    rintro e (⟨rfl, h1, h2, h3⟩ | ⟨rfl, h1⟩)
    · exact .of_fault (.grantIsSwap hr hmem hvlt hf h1 h2 h3)
    · exact .of_fault (.grantSendRoutedSwap h1)
  rintro ⟨f', t⟩ ⟨hrouted, ht⟩
  obtain ⟨rfl, rfl⟩ := Prod.mk.inj ht
  simp only [setRouter_buf, setOutVc_buf, hf, tail_cons]
  refine Outcome.mono (moveGrantedPtr_outcome ..) ?_ ?_
  case refine_2 =>
    rintro e ⟨hpos, he⟩
    simp only [setBuf_router, setRouter_router, update_self] at hpos he
    exact .of_fault (.movSwapPtr hr hpos he ((movSwapPtr_faults ..).of_error he))
  rintro t ⟨sp, hsp, rfl⟩
  simp only [OutVcState.decrementCredit, outcome_do]
  refine ⟨fun hcr => ?_, fun hcr => ?_⟩
  case refine_2 =>
    refine .of_fault (.decrementCredit (outport_mem_links hr (mem_of_getElem? hop))
      (hwk ▸ Params.vc_lt hn hk) hidle ?_)
    simp [setSwapPtr, OutVcState.setState] at hcr
    omega
  refine (releaseVc_outcome ..).mono ?_ ?_
  case refine_2 =>
    rintro e rfl
    exact hother (by decide)
  rintro t rfl
  have hcredit : 1 ≤ (s.outVc op.link w).creditCount := by
    simp [setSwapPtr, OutVcState.setState] at hcr
    omega
  have hptr : GrantPtr P r i v (update s.buf (.inputVc p.link v) fs) (s.router r).swapPtr
      sp := by
    simp only [setBuf_router, setRouter_router, update_self] at hsp
    exact hsp
  have hmove := Move.grant (P := P) (s := s.schedule (.creditLink p.link) (s.now + 1))
    (x := { s.router r with
      swapPtr := sp
      isSwap := if P.interswap && f.routedSwap then false else (s.router r).isSwap
      roundRobinInport := update (s.router r).roundRobinInport o
        (rrNext (P.inports r).length ((s.router r).roundRobinInport o)) })
    ⟨hr, hp, hop, hvlt, hf, hst, hfo, hn, hw, hcredit, hrouted, hptr, rfl, rfl,
      s.mem_scheduled _ (le_succ _)⟩
  refine ⟨.sched_first (.creditLink p.link) (s.now + 1) ?_, rfl, fun q hq hne u => ?_⟩
  · convert hmove using 1
    simp [Net.insert, setBuf, setOutVc, setSwapPtr, setRouter, schedule, grantedFlit]
    exact ⟨rfl, rfl, rfl⟩
  · have hlink : q.link ≠ p.link := by
      intro hlink
      obtain ⟨j, hj⟩ := mem_iff_getElem?.mp hq
      obtain rfl : j = i := port_idx_unique (inports_pairwise P r) hj hp (.inl hlink)
      exact hne (hp.symm.trans hj)
    simp [Net.insert, setSwapPtr, hlink]

theorem grantRound_outcome {reqs : Requests} {k : Nat}
    (hq : ∀ q ∈ reqs, k ≤ q.1 → ReqStands P r s q)
    (hone : reqs.Pairwise fun q q' => q.2.1 ≠ q'.2.1) :
    Outcome (match findGrant reqs k (P.inports r).length (P.inports r).length
        ((s.router r).roundRobinInport k) with
      | some (inport, invc) => grant P r inport invc k s
      | none => return s)
      (fun s' => Moves P (.router r) s s' ∧ ∀ q ∈ reqs, k + 1 ≤ q.1 → ReqStands P r s' q)
      (Fails P (.router r) s) := by
  cases hg : findGrant reqs k (P.inports r).length (P.inports r).length
      ((s.router r).roundRobinInport k) with
  | none => exact ⟨.rfl', fun q h hk => hq q h (le_of_succ_le hk)⟩
  | some iv =>
    obtain ⟨i, v⟩ := iv
    have hmem := mem_of_findGrant _ _ _ _ hg
    refine (grant_outcome hr (hq _ hmem le_rfl)).imp
      fun t' ⟨hmoves, hnow, hbuf⟩ => ⟨hmoves, fun q h hk => ?_⟩
    obtain ⟨p, f, fs, hp, hf, hst⟩ := hq q h (le_of_succ_le hk)
    have hne : (k, i, v) ≠ q := by
      rintro rfl
      exact Nat.lt_irrefl k hk
    have : Std.Symm fun q q' : Nat × Nat × Nat => q.2.1 ≠ q'.2.1 := ⟨fun _ _ h => h.symm⟩
    have hport : i ≠ q.2.1 := hone.forall hmem h hne
    have hother : (P.inports r)[i]? ≠ some p := fun h' =>
      hport (port_idx_unique (inports_pairwise P r) h' hp (.inl rfl))
    exact ⟨p, f, fs, hp, by rw [hbuf p (mem_of_getElem? hp) hother, hf], by rwa [hnow]⟩

theorem arbitrateOutports_runs {reqs : Requests} (hq : ∀ q ∈ reqs, ReqStands P r s q)
    (hone : reqs.Pairwise fun q q' => q.2.1 ≠ q'.2.1) :
    Runs P (.router r) s (arbitrateOutports P r reqs s) := by
  let I (k : Nat) (t : Net) : Prop :=
    Moves P (.router r) s t ∧ ∀ q ∈ reqs, k ≤ q.1 → ReqStands P r t q
  refine (Outcome.foldlM_range (I := I) _ (fun k _ t ht => ?_) s
    ⟨.rfl', fun q h _ => hq q h⟩).imp fun t ht => ht.1
  exact (grantRound_outcome hr ht.2 hone).mono (fun _ h => ⟨ht.1.trans h.1, h.2⟩)
    (fun _ he => .after ht.1 he)

def Rechecked (P : Params) (r : Nat) (s : Net) : Prop :=
  ∀ p ∈ P.inports r, ∀ v < P.numVcs, ∀ f fs, s.buf (.inputVc p.link v) = f :: fs →
    f.time ≤ s.now + 1 → f.isStage .sa (s.now + 1) = true → s.now + 1 ∈ s.scheduled (.router r)

theorem checkForWakeup_outcome (s : Net) :
    Outcome (checkForWakeup P r s) (fun s' => Moves P (.router r) s s' ∧ Rechecked P r s')
      (Fails P (.router r) s) := by
  simp only [checkForWakeup, outcome_do]
  refine (Outcome.anyM fun p hp => Outcome.anyM fun v _ =>
    needStage_outcome hr hp v .sa (le_succ s.now)).mono (fun b hb => ?_)
    (fun _ he => .of_fault he)
  cases b with
  | true =>
    exact ⟨.one (.sched ..), fun _ _ _ _ _ _ _ _ _ => s.mem_scheduled _ (le_succ _)⟩
  | false =>
    refine ⟨.rfl', fun p hp v hv f fs hf ht hst => ?_⟩
    exact absurd (hb.mpr ⟨p, hp, v, mem_range.mpr hv, f, fs, hf, ht, hst⟩) (by simp)

theorem switchAllocatorWakeup_outcome (s : Net) :
    Outcome (switchAllocatorWakeup P r s) (fun s' => Moves P (.router r) s s' ∧ Rechecked P r s')
      (Fails P (.router r) s) := by
  simp only [switchAllocatorWakeup, outcome_bind]
  refine (arbitrateInports_outcome hr s).imp fun res hreqs => ?_
  obtain ⟨h1, hq, hone⟩ := hreqs
  refine (arbitrateOutports_runs hr hq hone).mono (fun s2 h2 => ?_) (fun _ he => .after h1 he)
  exact (checkForWakeup_outcome hr s2).mono (fun s3 h3 => ⟨(h1.trans h2).trans h3.1, h3.2⟩)
    (fun _ he => .after (h1.trans h2) he)

theorem crossbarPort_outcome {i : Nat} (hi : i < (P.inports r).length) (s : Net) :
    Outcome (crossbarPort P r i s) (fun s' => Moves P (.router r) s s' ∧
      (Rechecked P r s → Rechecked P r s')) (Fails P (.router r) s) := by
  unfold crossbarPort
  cases hb : s.buf (.switchBuffer r i) with
  | nil => exact ⟨.rfl', id⟩
  | cons f fs =>
    by_cases ht : f.time ≤ s.now ∧ f.isStage .st s.now = true
    · simp only [if_pos ht, outPort, outcome_do]
      refine ⟨fun o ho => ⟨?_, fun h => ?_⟩, fun _ => .of_fault (.other (by decide))⟩
      · have hmove := Move.cross (P := P) (s := s.schedule (.link o.link) (s.now + 1)) hr hi hb ht.1
          ho (s.mem_scheduled _ (le_succ _))
        refine .sched_first (.link o.link) (s.now + 1) ?_
        convert hmove using 1
        simp only [Net.insert, setBuf, transfer, schedule]
        rw [update_comm (by simp)]
        rfl
      · intro p hp v hv f' fs' hf' ht' hst'
        simp [Net.insert] at hf' ht' hst' ⊢
        exact h p hp v hv f' fs' hf' ht' hst'
    · simp only [if_neg ht]
      exact ⟨Moves.rfl', id⟩

theorem crossbarWakeup_outcome (s : Net) :
    Outcome (crossbarWakeup P r s) (fun s' => Moves P (.router r) s s' ∧
      (Rechecked P r s → Rechecked P r s')) (Fails P (.router r) s) :=
  Outcome.foldlM _ (fun _ hi t ht =>
    (crossbarPort_outcome hr (mem_range.mp hi) t).mono
      (fun _ h => ⟨ht.1.trans h.1, fun h' => h.2 (ht.2 h')⟩) (fun _ he => .after ht.1 he))
    s ⟨.rfl', id⟩

theorem pipelineWakeup_outcome (rnd : Nat → Nat) (s : Net) :
    Outcome (pipelineWakeup P r rnd s) (fun s' => Moves P (.router r) s s' ∧ Rechecked P r s')
      (Fails P (.router r) s) := by
  simp only [pipelineWakeup, outcome_bind]
  refine (Runs.foldlM _ (fun e he t => ?_) s).imp fun s1 h1 => ?_
  · obtain ⟨p, i⟩ := e
    exact inputUnitWakeup_runs hr (fst_mem_of_mem_zipIdx he) _ t
  refine (Runs.foldlM _ (fun o ho t => ?_) s1).mono (fun s2 h2 => ?_) (fun _ he => .after h1 he)
  · exact creditArrival_runs (outport_mem_links hr ho) (by rw [outport_driver ho]; rfl) t
  have h12 := h1.trans h2
  refine (switchAllocatorWakeup_outcome hr s2).mono (fun s3 h3 => ?_) (fun _ he => .after h12 he)
  have h13 := h12.trans h3.1
  exact (crossbarWakeup_outcome hr s3).mono (fun s4 h4 => ⟨h13.trans h4.1, h4.2 h3.2⟩)
    (fun _ he => .after h13 he)

end Allocator

end NocSwap
