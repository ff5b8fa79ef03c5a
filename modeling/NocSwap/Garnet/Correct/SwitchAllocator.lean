import NocSwap.Garnet.Correct.Refine.SwitchAllocator
import NocSwap.Garnet.Correct.PointToPoint
import NocSwap.Garnet.Correct.Fresh
import NocSwap.Garnet.Correct.Routed

/-!
# Switch allocation
-/

namespace NocSwap

open List Net OutVcState Nat

variable {P : Params} {s s' : Net} {r : Nat}

/-! ### What holds in the states of a router -/

def PortExists (P : Params) : Buf → Flit → Prop
  | .inputVc l _, f => ∀ r < P.numRouters, ∀ p ∈ P.inports r, p.link = l →
      ∃ o, (P.outports r)[f.outport]? = some o
  | _, _ => True

variable {v : Nat} {p : Port} {f : Flit}

theorem portExists_of {r : Nat} {o : Port} (hr : r < P.numRouters) (hp : p ∈ P.inports r)
    (h : (P.outports r)[f.outport]? = some o) : PortExists P (.inputVc p.link v) f :=
  forall_inport hr hp ⟨o, h⟩

theorem exists_outport_of_routesTo {outport : Nat} {route : RouteInfo} (hroute : RouteOk P route)
    (h : RoutesTo P r route outport) : ∃ o, (P.outports r)[outport]? = some o := by
  rcases routesTo_cases hroute h with ⟨o, ho, -, -⟩ | ⟨dirn, -, -, ho⟩
  · exact ⟨o, ho⟩
  · exact ⟨_, ho⟩

theorem portExists (P : Params) : InductiveUnder P (fun s => ∀ b, ∀ f ∈ s.buf b, RouteOk P f.route)
      fun s => ∀ b, ∀ f ∈ s.buf b, PortExists P b f := by
  refine flits_inductive fun s hroute h b f haft => ?_
  have hhead : ∀ {b₀ g gs}, s.buf b₀ = g :: gs → RouteOk P g.route :=
    fun {b₀ g gs} hb => hroute b₀ g (hb ▸ mem_cons_self ..)
  cases haft with
  | kept hf => exact h b f hf
  | @cleared _ g hf =>
    have hg := h b g hf
    cases b <;> exact hg
  | arrived ha => exact portExists_of ha.router_lt ha.port ha.outport_eq
  | handedBack hs =>
    obtain ⟨o, ho⟩ := exists_outport_of_routesTo (hhead hs.head') hs.route'
    exact portExists_of hs.router_lt (mem_of_getElem? hs.ptr.port) ho
  | swapped hs =>
    obtain ⟨o, ho⟩ := exists_outport_of_routesTo (hhead hs.head) hs.route
    exact portExists_of (downstream_spec hs.downstream_eq).1 (mem_of_getElem? hs.facing) ho
  | _ => exact trivial

theorem Inductive.imp {C : Prop} {I : Net → Prop} (h : C → Inductive P I) :
    Inductive P fun s => C → I s where
  init hC := (h hC).init
  fire s c hs hC := (h hC).fire s c (hs hC)
  tick s hs hC := (h hC).tick s (hs hC)
  move s c s' hc hs hm hC := (h hC).move s c s' hc (hs hC) hm

structure AllocContext (P : Params) (s : Net) : Prop where
  headTail : ∀ b, ∀ f ∈ s.buf b, f.type = .headTail
  senders : SendersOk P s
  receivers : ReceiversOk s
  unset : ∀ l v, (s.vc l v).outputPort = -1 ∧ (s.vc l v).outputVc = -1
  route : ∀ b, ∀ f ∈ s.buf b, RouteOk P f.route
  port : ∀ b, ∀ f ∈ s.buf b, PortExists P b f
  alloc : ∀ n v, (s.ni n).vcAllocator v < P.vcsPerVnet
  name : ∀ b, ∀ f ∈ s.buf b, NamesVc b f
  vnet : ∀ b, ∀ f ∈ s.buf b, f.vc / P.vcsPerVnet = P.injVnet f.vnet
  send : ∀ r, (s.router r).sendRoutedSwap = false
  pointers : P.interswap = true → PointersOk P s
  routed : P.interswap = true ∧ P.noIsSwap = 0 → RoutedContext P s ∧ RoutedOk P s

theorem allocContext (P : Params) : Inductive P (AllocContext P) := by
  have hptr : Inductive P fun s => P.interswap = true →
      (∀ b, ∀ f ∈ s.buf b, NamesVc b f) ∧ PointersOk P s :=
    .imp fun hi => (pointersOk hi).and (namesVc P)
  have hrouted : Inductive P fun s => P.interswap = true ∧ P.noIsSwap = 0 →
      RoutedContext P s ∧ RoutedOk P s :=
    .imp fun h => (routedOk h.1 h.2).and (routedContext h.1 h.2)
  have hcredit := (receiversOk P).and ((sendersOk P).and (NocSwap.headTail P))
  have hport := (portExists P).and (routeOk P)
  have hall := ((hcredit.both (vcUnset P)).both (hport.both (vc_vnet P))).both
    ((sendRoutedSwap_eq_false P).both (hptr.both hrouted))
  refine hall.congr fun s => ⟨?_, fun h => ?_⟩
  · rintro ⟨⟨⟨⟨⟨h1, h2⟩, h3⟩, h4⟩, ⟨h5, h6⟩, ⟨h7, h8⟩, h9⟩, h10, h11, h12⟩
    exact ⟨h1, h2, h3, h4, h5, h6, h7, h8, h9, h10, fun hi => (h11 hi).2, h12⟩
  · exact ⟨⟨⟨⟨⟨h.headTail, h.senders⟩, h.receivers⟩, h.unset⟩, ⟨h.route, h.port⟩,
      ⟨h.alloc, h.name⟩, h.vnet⟩, h.send, fun hi => ⟨h.name, h.pointers hi⟩, h.routed⟩

variable {t : Net}

theorem clearRoutedSwap_ok (h : AllocContext P s) (hr : r < P.numRouters) (hp : p ∈ P.inports r)
    (hv : v < P.numVcs) (hf : f ∈ s.buf (.inputVc p.link v)) (ht : t.router = s.router) :
    Outcome (clearRoutedSwap P r f t)
      (fun res => res = ({ f with
          routedSwap := if P.interswap && f.routedSwap then false else f.routedSwap },
        t.setRouter r { t.router r with
          isSwap := if P.interswap && f.routedSwap then false else (t.router r).isSwap }))
      fun _ => False := by
  have hfail : Outcome (clearRoutedSwap P r f t) (fun _ => True) fun _ => P.interswap = true := by
    unfold clearRoutedSwap
    rw [outcome_ite]
    refine ⟨fun hc => .intro (fun _ _ => trivial) fun _ _ => ?_, fun _ => trivial⟩
    rw [Bool.and_eq_true] at hc
    exact hc.1
  apply ((clearRoutedSwap_outcome r f t).and hfail).mono
  · exact fun _ hres => hres.1.2
  · rintro e ⟨⟨-, hm, h0, hbit⟩ | ⟨-, hs⟩, hi⟩
    · have hset := (h.routed ⟨hi, h0⟩).2.isSwap_of_routed hr hp hv hf hm
      rw [ht, hset] at hbit
      cases hbit
    · rw [ht, h.send r] at hs
      cases hs

theorem moveGrantedPtr_ok (h : AllocContext P s) (hr : r < P.numRouters) (i v : Nat)
    (ht : (t.router r).swapPtr = (s.router r).swapPtr) :
    Outcome (moveGrantedPtr P r i v t) (fun t' => ∃ sp, t' = t.setSwapPtr r sp) fun _ => False := by
  by_cases hi : P.interswap = true
  · refine (moveGrantedPtr_outcome r i v t).mono (fun t' ⟨sp, _, ht'⟩ => ⟨sp, ht'⟩) ?_
    rintro e ⟨hpos, he⟩
    rw [ht] at hpos he
    exact (movSwapPtr_ok (h.pointers hi r hr) hpos).of_error he
  · simp only [moveGrantedPtr, hi, Bool.false_and, Bool.false_eq_true, if_false, outcome_pure]
    exact ⟨(t.router r).swapPtr, (setSwapPtr_self t r).symm⟩

theorem releaseVc_ok {l : Link} (hb : s.buf (.inputVc l v) = []) : Outcome (releaseVc l v f s)
      (fun s' => s'.now = s.now ∧ s'.buf = s.buf ∧ s'.outVc = s.outVc) fun _ => False := by
  unfold releaseVc
  simp only [outcome_ite, outcome_do, hb, flitReady]
  exact ⟨fun _ => ⟨fun _ => ⟨rfl, rfl, rfl⟩, fun hne => hne trivial⟩, fun _ => ⟨rfl, rfl, rfl⟩⟩

variable {i : Nat} {op : Port}

theorem grant_ok (h : AllocContext P s) (hr : r < P.numRouters) {o w : Nat}
    {fs : List Flit} (hp : (P.inports r)[i]? = some p) (hv : v < P.numVcs)
    (hb : s.buf (.inputVc p.link v) = f :: fs) (ho : (P.outports r)[o]? = some op)
    (hw : selectFreeVc P s op.link (v / P.vcsPerVnet) = some w) :
    ∃ s', grant P r i v o s = .ok s' ∧ s'.now = s.now ∧
      s'.buf = Function.update (Function.update s.buf (.inputVc p.link v) []) (.switchBuffer r i)
        (insertFlit (grantedFlit P s f o w op) (s.buf (.switchBuffer r i))) ∧
      s'.outVc = set2 s.outVc op.link w ((s.outVc op.link w).allocated s.now) := by
  have hmem := mem_of_getElem? hp
  have hf : f ∈ s.buf (.inputVc p.link v) := hb ▸ mem_cons_self ..
  obtain rfl : fs = [] := h.senders.tail_eq_nil (inport_mem_links hr hmem) hv hb
  have hvnet : v / P.vcsPerVnet < P.virtualNetworks :=
    Nat.div_lt_of_lt_mul (by rwa [Nat.mul_comm])
  have hidle := (selectFreeVc_eq_some hw).2
  have hcredit : 1 ≤ (s.outVc op.link w).creditCount := by
    have hch := h.senders.channel op.link w
    have hzero := hch.eq_zero hidle
    have hsum := hch.credit
    have hpos := maxCredit_pos P w
    omega
  refine Outcome.exists_ok ?_
  simp only [grant, inVc, inPort, outPort, getVnet, outcome_do, Int.toNat_natCast, hp, ho, hw,
    hvnet, (h.unset _ _).2, Option.some.injEq, forall_eq', Int.natCast_nonneg, Int.ofNat_lt, hv,
    forall_const, not_true_eq_false, false_implies, reduceCtorEq, setOutVc_buf, hb, List.head?_cons]
  refine Outcome.mono (clearRoutedSwap_ok h hr hmem hv hf ?_) ?_ fun _ he => he
  · rfl
  rintro ⟨f', t⟩ ht
  obtain ⟨rfl, rfl⟩ := Prod.mk.inj ht
  simp only [setRouter_buf, setOutVc_buf, hb, tail_cons]
  refine Outcome.mono (moveGrantedPtr_ok h hr i v ?_) ?_ fun _ he => he
  · simp
  rintro t ⟨sp, rfl⟩
  simp only [decrementCredit, outcome_do]
  refine ⟨fun _ => ?_, fun hcr => ?_⟩
  case refine_2 =>
    simp [setSwapPtr, setState] at hcr
    omega
  refine (releaseVc_ok ?_).imp ?_
  · simp [Net.insert, setSwapPtr]
  rintro t ⟨hnow, hbuf, hout⟩
  refine ⟨hnow, ?_, ?_⟩
  · show t.buf = _
    rw [hbuf]
    simp [Net.insert, setBuf, setOutVc, setRouter, setSwapPtr, grantedFlit]
  · show t.outVc = _
    rw [hout]
    simp [Net.insert, setBuf, setOutVc, setRouter, setSwapPtr, allocated, setState]

/-- The flit `f` is ready in channel `v` of input port `i`, asks for output port `o`, and this has a
free channel for it. -/
structure RequestAt (P : Params) (s : Net) (r o i v : Nat) (p op : Port) (f : Flit) : Prop where
  inport : (P.inports r)[i]? = some p
  outport : (P.outports r)[o]? = some op
  vc_lt : v < P.numVcs
  ready : staged s p.link v .sa s.now = some f
  asks : f.outport = o
  free : hasFreeVc P s op.link (v / P.vcsPerVnet) = true

theorem RequestAt.head {o : Nat} (h : RequestAt P s r o i v p op f) :
    ∃ fs, s.buf (.inputVc p.link v) = f :: fs ∧ f.isStage .sa s.now = true := by
  obtain ⟨fs, hb, -, hst⟩ := staged_eq_some.mp h.ready
  exact ⟨fs, hb, hst⟩

theorem findRequest_ok (h : AllocContext P s) (hr : r < P.numRouters)
    (hp : (P.inports r)[i]? = some p) (itr : Nat) : ∀ invc < P.numVcs,
    Outcome (findRequest P s r p.link itr invc)
      (fun res => ∀ q ∈ res, ∃ op f, RequestAt P s r q.1 i q.2 p op f) fun _ => False := by
  induction itr with
  | zero => exact fun _ _ _ hq => nomatch hq
  | succ itr ih =>
    intro invc hinvc
    have hnext := ih (rrNext P.numVcs invc) (rrNext_lt (zero_lt_of_lt hinvc))
    simp only [findRequest, outcome_bind, needStage_eq h.receivers _ _ _ le_rfl, outcome_ok]
    cases hst : staged s p.link invc .sa s.now with
    | none => exact hnext
    | some f =>
      obtain ⟨fs, hb, -⟩ := staged_eq_some.mp hst
      obtain ⟨op, hop⟩ := h.port (.inputVc p.link invc) f (hb ▸ mem_cons_self ..) r hr p
        (mem_of_getElem? hp) rfl
      simp only [Option.isSome_some, if_true, outcome_bind, hb, List.head?_cons, orFail, outcome_ok,
        sendAllowed_eq h.receivers h.unset hinvc hop]
      cases hfree : hasFreeVc P s op.link (invc / P.vcsPerVnet) with
      | false => exact hnext
      | true =>
        rintro q ⟨⟩
        exact ⟨op, f, hp, hop, hinvc, hst, rfl, hfree⟩

/-- The matrices and the network after the first round over the first `k` input ports. -/
structure FirstRound (P : Params) (r : Nat) (s : Net) (k : Nat) (a : SwitchAllocator) (t : Net) :
    Prop where
  context : AllocContext P t
  roundRobin : RoundRobinOk P t
  buf : t.buf = s.buf
  now : t.now = s.now
  outVc : t.outVc = s.outVc
  requests : ∀ o i, a.portRequests o i = true →
    i < k ∧ ∃ p op f, RequestAt P s r o i (a.vcWinners o i) p op f
  one : ∀ o o' i, a.portRequests o i = true → a.portRequests o' i = true → o = o'

namespace FirstRound

variable {k : Nat} {a : SwitchAllocator} {t : Net}

theorem succ (h : FirstRound P r s k a t) : FirstRound P r s (k + 1) a t :=
  { h with requests := fun o i hq => ⟨lt_succ_of_lt (h.requests o i hq).1,
      (h.requests o i hq).2⟩ }

theorem requestAt (h : FirstRound P r s k a t) {o i v : Nat} {p op : Port} {f : Flit}
    (hq : RequestAt P t r o i v p op f) : RequestAt P s r o i v p op f where
  inport := hq.inport
  outport := hq.outport
  vc_lt := hq.vc_lt
  ready := by
    have hready := hq.ready
    rwa [staged, h.buf, h.now] at hready
  asks := hq.asks
  free := by
    have hfree := hq.free
    rwa [hasFreeVc, selectFreeVc, h.outVc, h.now] at hfree

theorem request (h : FirstRound P r s k a t) (hr : r < P.numRouters) {o v : Nat} {p op : Port}
    {f : Flit} (hq : RequestAt P t r o k v p op f) :
    FirstRound P r s (k + 1) (a.request o k v) (t.advanceInvc P r k) where
  context := (allocContext P).move t (.router r) _ (mem_consumers.mpr hr) h.context
    (.routerRegs r _ ⟨rfl, rfl, rfl⟩)
  roundRobin := h.roundRobin.advanceInvc r k
  buf := h.buf
  now := h.now
  outVc := h.outVc
  requests o' i := by
    rw [SwitchAllocator.request_portRequests, SwitchAllocator.request_vcWinners, set2_apply,
      set2_apply]
    split_ifs with heq
    · obtain ⟨rfl, rfl⟩ := heq
      exact fun _ => ⟨lt_succ_self _, p, op, f, h.requestAt hq⟩
    · exact h.succ.requests o' i
  one o' o'' i := by
    rw [SwitchAllocator.request_portRequests, SwitchAllocator.request_portRequests, set2_apply,
      set2_apply]
    -- no earlier request is one of input port `k`
    have hne : ∀ {o'}, a.portRequests o' i = true → i ≠ k := fun {o'} hold =>
      (h.requests o' i hold).1.ne
    split_ifs with h1 h2 h2
    · exact fun _ _ => h1.1.trans h2.1.symm
    · exact fun _ hold => absurd h1.2 (hne hold)
    · exact fun hold _ => absurd h2.2 (hne hold)
    · exact h.one o' o'' i

end FirstRound

theorem arbitrateInports_ok (h : AllocContext P s) (hrr : RoundRobinOk P s)
    (hr : r < P.numRouters) {a : SwitchAllocator} (ha : a.Clear) :
    ∃ a1 s1, a.arbitrateInports P r s = .ok (a1, s1) ∧
      FirstRound P r s (P.inports r).length a1 s1 := by
  have hnone : ∀ o i, ¬ a.portRequests o i = true := fun o i => by simp [ha o i]
  have hstart : FirstRound P r s 0 a s :=
    ⟨h, hrr, rfl, rfl, rfl, fun o i hq => absurd hq (hnone o i),
      fun o _ i hq => absurd hq (hnone o i)⟩
  have hloop : Outcome (a.arbitrateInports P r s)
      (fun x => FirstRound P r s (0 + (P.inports r).length) x.1 x.2) fun _ => False := by
    refine Outcome.foldlM_zipIdx (I := fun k x => FirstRound P r s k x.1 x.2) (P.inports r) 0 ?_
      (a, s) hstart
    rintro i p hp ⟨a', t⟩ hround
    simp only [Nat.zero_add] at hround ⊢
    rw [outcome_bind]
    have hfind : Outcome (findRequest P t r p.link P.numVcs ((t.router r).roundRobinInvc i))
        (fun res => ∀ q ∈ res, ∃ op f, RequestAt P t r q.1 i q.2 p op f) fun _ => False := by
      rcases Nat.eq_zero_or_pos P.numVcs with hn | hn
      · rw [hn]
        exact fun q hq => nomatch hq
      · exact findRequest_ok hround.context hr hp P.numVcs _ (hround.roundRobin.invc hn r i)
    refine hfind.imp fun res hres => ?_
    rcases res with _ | ⟨o, v⟩
    · exact hround.succ
    · obtain ⟨op, f, hq⟩ := hres (o, v) rfl
      exact hround.request hr hq
  rw [Nat.zero_add] at hloop
  obtain ⟨⟨a1, s1⟩, hrun, hround⟩ := hloop.exists_ok
  exact ⟨a1, s1, hrun, hround⟩

namespace SwitchAllocator

variable {a : SwitchAllocator} {o n : Nat}

theorem portRequests_of_findWinner (itr : Nat) : ∀ {i j : Nat}, a.findWinner o n itr i = some j →
    a.portRequests o j = true := by
  induction itr with
  | zero => exact fun h => nomatch h
  | succ itr ih =>
    intro i j h
    rw [findWinner] at h
    split_ifs at h with hreq
    · exact Option.some.inj h ▸ hreq
    · exact ih h

theorem findWinner_none (itr : Nat) : ∀ {i : Nat}, i < n → a.findWinner o n itr i = none →
    ∀ j < itr, a.portRequests o ((i + j) % n) = false := by
  induction itr with
  | zero => exact fun _ _ j hj => absurd hj (Nat.not_lt_zero j)
  | succ itr ih =>
    intro i hi h j hj
    rw [findWinner] at h
    split_ifs at h with hreq
    cases j with
    | zero =>
      rw [Nat.add_zero, mod_eq_of_lt hi]
      exact Bool.eq_false_iff.mpr hreq
    | succ j =>
      have hrest := ih (rrNext_lt (zero_lt_of_lt hi)) h j (lt_of_succ_lt_succ hj)
      have hstep : (rrNext n i + j) % n = (i + (j + 1)) % n := by
        unfold rrNext
        split_ifs with hlast
        · have : i + (j + 1) = j + n := by omega
          rw [this, add_mod_right, Nat.zero_add]
        · congr 1
          omega
      rwa [hstep] at hrest

theorem exists_findWinner {i j : Nat} (hi : i < n) (hj : j < n) (h : a.portRequests o j = true) :
    ∃ w, a.findWinner o n n i = some w := by
  cases hw : a.findWinner o n n i with
  | some w => exact ⟨w, rfl⟩
  | none =>
    have hmiss := findWinner_none n hi hw ((j + (n - i)) % n) (mod_lt _ (by omega))
    have hreach : (i + (j + (n - i)) % n) % n = j := by
      rw [add_mod_mod, show i + (j + (n - i)) = j + n by omega, add_mod_right,
        mod_eq_of_lt hj]
    rw [hreach, h] at hmiss
    cases hmiss

end SwitchAllocator

/-- What a grant `g` has done: the flit was ready, asked for this port, left its channel and has got
the idle channel `w`. -/
structure GrantMade (P : Params) (r : Nat) (s s' : Net) (g : Grant) (p op : Port) (f : Flit)
    (w : Nat) : Prop extends RequestAt P s r g.outport g.inport g.invc p op f where
  vnet : w / P.vcsPerVnet = g.invc / P.vcsPerVnet
  injected : w / P.vcsPerVnet = P.injVnet f.vnet
  idle : (s.outVc op.link w).state = .idle
  taken : (s'.outVc op.link w).state = .active
  left : s'.buf (.inputVc p.link g.invc) = []
  sent : s'.buf (.switchBuffer r g.inport) =
    insertFlit (grantedFlit P s f g.outport w op) (s.buf (.switchBuffer r g.inport))

/-- The second round over the first `k` output ports, with the requests of the matrices `a`. -/
structure SecondRound (P : Params) (r : Nat) (s : Net) (a : SwitchAllocator) (k : Nat)
    (x : SwitchAllocator.Round) : Prop where
  context : AllocContext P x.net
  roundRobin : RoundRobinOk P x.net
  now : x.net.now = s.now
  requests : ∀ o, k ≤ o → x.alloc.portRequests o = a.portRequests o
  winners : x.alloc.vcWinners = a.vcWinners
  inports : ∀ i, (∀ g ∈ x.grants, g.inport ≠ i) → ∀ p, (P.inports r)[i]? = some p →
    (∀ v, x.net.buf (.inputVc p.link v) = s.buf (.inputVc p.link v)) ∧
      x.net.buf (.switchBuffer r i) = s.buf (.switchBuffer r i)
  outports : ∀ o, k ≤ o → ∀ op, (P.outports r)[o]? = some op → x.net.outVc op.link = s.outVc op.link
  below : ∀ g ∈ x.grants, g.outport < k
  granted : ∀ g ∈ x.grants, a.portRequests g.outport g.inport = true ∧
    a.vcWinners g.outport g.inport = g.invc ∧ ∃ p op f w, GrantMade P r s x.net g p op f w
  covered : ∀ o < k, ∀ i < (P.inports r).length, a.portRequests o i = true →
    ∃ g ∈ x.grants, g.outport = o
  inportsNodup : (x.grants.map Grant.inport).Nodup
  outportsNodup : (x.grants.map Grant.outport).Nodup

theorem inport_link_ne_of_ne {j : Nat} {q : Port} (hi : (P.inports r)[i]? = some p)
    (hj : (P.inports r)[j]? = some q) (hne : j ≠ i) : q.link ≠ p.link :=
  fun hl => hne (port_idx_unique (inports_pairwise P r) hj hi (.inl hl))

theorem outport_link_ne_of_ne {j : Nat} {q : Port} (hi : (P.outports r)[i]? = some p)
    (hj : (P.outports r)[j]? = some q) (hne : j ≠ i) : q.link ≠ p.link :=
  fun hl => hne (port_idx_unique (outports_pairwise P r) hj hi (.inl hl))

theorem GrantMade.keep {t' : Net} {g : Grant} {w : Nat}
    (h : GrantMade P r s t g p op f w) (hout : t'.outVc op.link = t.outVc op.link)
    (hin : t'.buf (.inputVc p.link g.invc) = t.buf (.inputVc p.link g.invc))
    (hsw : t'.buf (.switchBuffer r g.inport) = t.buf (.switchBuffer r g.inport)) :
    GrantMade P r s t' g p op f w :=
  { h with
    taken := hout ▸ h.taken
    left := hin.trans h.left
    sent := hsw.trans h.sent }

namespace SecondRound

variable {a : SwitchAllocator} {k : Nat} {x : SwitchAllocator.Round}

theorem skip (h : SecondRound P r s a k x)
    (hnone : x.alloc.findWinner k (P.inports r).length (P.inports r).length
      ((x.net.router r).roundRobinInport k) = none) : SecondRound P r s a (k + 1) x :=
  { h with
    requests := fun o ho => h.requests o (le_of_succ_le ho)
    outports := fun o ho => h.outports o (le_of_succ_le ho)
    below := fun g hg => lt_succ_of_lt (h.below g hg)
    covered := fun o ho i hi hreq => by
      rcases Nat.lt_succ_iff_lt_or_eq.mp ho with hlt | rfl
      · exact h.covered o hlt i hi hreq
      · have hrr := h.roundRobin.inport r (zero_lt_of_lt hi) o
        rw [← h.requests o le_rfl] at hreq
        obtain ⟨w, hw⟩ := SwitchAllocator.exists_findWinner hrr hi hreq
        rw [hnone] at hw
        cases hw }

theorem grant (h : SecondRound P r s a k x) (hr : r < P.numRouters)
    (hone : ∀ o o' i, a.portRequests o i = true → a.portRequests o' i = true → o = o') {i : Nat}
    (hreq : a.portRequests k i = true) {p op : Port} {f : Flit}
    (hq : RequestAt P s r k i (a.vcWinners k i) p op f) :
    ∃ s', NocSwap.grant P r i (a.vcWinners k i) k x.net = .ok s' ∧
      SecondRound P r s a (k + 1)
        ⟨⟨k, i, a.vcWinners k i⟩ :: x.grants, x.alloc.removeRequest k i, s'⟩ := by
  set v := a.vcWinners k i with hv
  have hfresh : ∀ g ∈ x.grants, g.inport ≠ i := by
    rintro g hg rfl
    exact (h.below g hg).ne (hone _ _ _ (h.granted g hg).1 hreq)
  obtain ⟨hbuf, hsw⟩ := h.inports i hfresh p hq.inport
  have hout := h.outports k le_rfl op hq.outport
  obtain ⟨fs, hb, hst⟩ := hq.head
  rw [← hbuf v] at hb
  obtain ⟨w, hw⟩ := Option.isSome_iff_exists.mp hq.free
  have hw' : selectFreeVc P x.net op.link (v / P.vcsPerVnet) = some w := by
    rw [selectFreeVc, hout, h.now]
    exact hw
  obtain ⟨⟨j, hj, hwj⟩, hidle⟩ := selectFreeVc_eq_some hw
  have hwv : w / P.vcsPerVnet = v / P.vcsPerVnet := by
    rw [hwj, Nat.mul_comm, mul_add_div P.vcs_pos, div_eq_of_lt hj, Nat.add_zero]
  have hmem : f ∈ x.net.buf (.inputVc p.link v) := hb ▸ mem_cons_self ..
  have hname : f.vc = v := h.context.name (.inputVc p.link v) f hmem
  obtain ⟨s', hs', hnow', hbuf', hout'⟩ :=
    grant_ok h.context hr hq.inport hq.vc_lt hb hq.outport hw'
  have hmoves := ((grant_outcome hr ⟨p, f, fs, hq.inport, hb, hq.asks, h.now ▸ hst⟩).of_ok hs').1
  -- what the grant leaves alone
  have hin : ∀ j q, (P.inports r)[j]? = some q → j ≠ i →
      (∀ u, s'.buf (.inputVc q.link u) = x.net.buf (.inputVc q.link u)) ∧
        s'.buf (.switchBuffer r j) = x.net.buf (.switchBuffer r j) := by
    intro j q hjq hne
    have hl := inport_link_ne_of_ne hq.inport hjq hne
    simp [hbuf', hl, hne]
  have hlink : ∀ o q, (P.outports r)[o]? = some q → o ≠ k →
      s'.outVc q.link = x.net.outVc q.link := by
    intro o q hoq hne
    have hl := outport_link_ne_of_ne hq.outport hoq hne
    funext u
    rw [hout', set2_of_ne fun heq => hl heq.1]
  refine ⟨s', hs', ?_⟩
  exact {
    context := (allocContext P).moves (mem_consumers.mpr hr) h.context hmoves
    roundRobin := (grant_rr h.roundRobin r i v k).of_ok hs'
    now := hnow'.trans h.now
    requests := fun o ho => by
      funext j
      rw [SwitchAllocator.removeRequest_portRequests, set2_of_ne (by omega),
        h.requests o (by omega)]
    winners := h.winners
    inports := fun j hj q hjq => by
      have hne : j ≠ i := fun heq => hj _ (mem_cons_self ..) heq.symm
      obtain ⟨h1, h2⟩ := h.inports j (fun g hg => hj g (mem_cons_of_mem _ hg)) q hjq
      obtain ⟨h1', h2'⟩ := hin j q hjq hne
      exact ⟨fun u => (h1' u).trans (h1 u), h2'.trans h2⟩
    outports := fun o ho q hoq =>
      (hlink o q hoq (by omega)).trans (h.outports o (by omega) q hoq)
    below := fun g hg => by
      rcases mem_cons.mp hg with rfl | hg
      · exact lt_succ_self k
      · exact lt_succ_of_lt (h.below g hg)
    granted := fun g hg => by
      rcases mem_cons.mp hg with rfl | hg
      · refine ⟨hreq, rfl, p, op, f, w, hq, hwv, ?_, hidle, ?_, ?_, ?_⟩
        · rw [hwv, ← hname]
          exact h.context.vnet _ f hmem
        · rw [hout', set2_same]
          rfl
        · simp [hbuf']
        · simp [hbuf', hsw, grantedFlit, h.now]
      · obtain ⟨h1, h2, q, oq, f', w', hg'⟩ := h.granted g hg
        obtain ⟨hbuf'', hsw''⟩ := hin g.inport q hg'.inport (hfresh g hg)
        exact ⟨h1, h2, q, oq, f', w', hg'.keep
          (hlink g.outport oq hg'.outport (h.below g hg).ne) (hbuf'' _) hsw''⟩
    covered := fun o ho j hj hreq' => by
      rcases Nat.lt_succ_iff_lt_or_eq.mp ho with hlt | rfl
      · obtain ⟨g, hg, hgo⟩ := h.covered o hlt j hj hreq'
        exact ⟨g, mem_cons_of_mem _ hg, hgo⟩
      · exact ⟨_, mem_cons_self .., rfl⟩
    inportsNodup := by
      rw [map_cons, nodup_cons]
      refine ⟨fun hmem => ?_, h.inportsNodup⟩
      obtain ⟨g, hg, hgi⟩ := mem_map.mp hmem
      exact hfresh g hg hgi
    outportsNodup := by
      rw [map_cons, nodup_cons]
      refine ⟨fun hmem => ?_, h.outportsNodup⟩
      obtain ⟨g, hg, hgo⟩ := mem_map.mp hmem
      exact (h.below g hg).ne hgo }

end SecondRound

theorem arbitrateOutports_ok {a : SwitchAllocator} (hr : r < P.numRouters)
    (h : FirstRound P r s (P.inports r).length a t) :
    ∃ x, a.arbitrateOutports P r t = .ok x ∧ SecondRound P r s a (P.outports r).length x := by
  have hstart : SecondRound P r s a 0 ⟨[], a, t⟩ := {
    context := h.context
    roundRobin := h.roundRobin
    now := h.now
    requests := fun _ _ => rfl
    winners := rfl
    inports := fun i _ p _ => ⟨fun v => by rw [h.buf], by rw [h.buf]⟩
    outports := fun o _ op _ => by rw [h.outVc]
    below := fun g hg => nomatch hg
    granted := fun g hg => nomatch hg
    covered := fun o ho => absurd ho (Nat.not_lt_zero o)
    inportsNodup := nodup_nil
    outportsNodup := nodup_nil }
  refine Outcome.exists_ok (Outcome.foldlM_range (I := SecondRound P r s a) _ (fun k _ x hx => ?_)
    _ hstart)
  unfold SwitchAllocator.grantOutport
  dsimp only
  cases hw : x.alloc.findWinner k (P.inports r).length (P.inports r).length
      ((x.net.router r).roundRobinInport k) with
  | none => exact hx.skip hw
  | some i =>
    have hreq := SwitchAllocator.portRequests_of_findWinner _ hw
    rw [hx.requests k le_rfl] at hreq
    obtain ⟨-, p, op, f, hq⟩ := h.requests k i hreq
    obtain ⟨s', hs', hround⟩ := hx.grant hr h.one hreq hq
    simp only [hx.winners, hs', outcome_bind, outcome_ok]
    exact hround

theorem checkForWakeup_ok (h : AllocContext P s) (r : Nat) :
    ∃ s', checkForWakeup P r s = .ok s' ∧ s'.buf = s.buf ∧ s'.outVc = s.outVc ∧
      s'.roundRobin = s.roundRobin := by
  refine Outcome.exists_ok ?_
  simp only [checkForWakeup, outcome_do]
  have hany : Outcome ((P.inports r).anyM fun p => (range P.numVcs).anyM fun v =>
      needStage s p.link v .sa (s.now + 1)) (fun _ => True) fun _ => False := by
    refine (Outcome.anyM (T := fun p => ∃ v ∈ range P.numVcs,
      (staged s p.link v .sa (s.now + 1)).isSome = true) fun p _ => Outcome.anyM fun v _ => ?_).imp
      fun _ _ => trivial
    rw [needStage_eq h.receivers _ _ _ (le_succ _), outcome_ok]
  refine hany.imp fun again _ => ?_
  split_ifs
  · exact ⟨rfl, rfl, rfl⟩
  · exact ⟨rfl, rfl, rfl⟩

theorem beforeAllocation_runs (hr : r < P.numRouters) (rnd : Nat → Nat) (s : Net) :
    Runs P (.router r) s (beforeAllocation P r rnd s) := by
  simp only [Runs, beforeAllocation, outcome_bind]
  have hswap : Runs P (.router r) s (beforePipeline P r rnd s) := by
    unfold beforePipeline
    split_ifs with hi
    · exact (swapWakeup_outcome hr hi rnd s).imp fun _ h => h.1
    · exact Moves.rfl'
  refine Outcome.mono hswap (fun s1 h1 => ?_) fun _ he => he
  refine (Runs.foldlM _ (fun e he t => ?_) s1).mono (fun s2 h2 => ?_) fun _ he => .after h1 he
  · exact inputUnitWakeup_runs hr (fst_mem_of_mem_zipIdx he) _ t
  refine (Runs.foldlM _ (fun o ho t => ?_) s2).mono (fun s3 h3 => (h1.trans h2).trans h3)
    fun _ he => .after (h1.trans h2) he
  exact creditArrival_runs (outport_mem_links hr ho) (by rw [outport_driver ho]; rfl) t

/-- **Switch allocation is a matching.** The grants are requests of the first round, to different
input ports and for different output ports, and each port with a request gets one. -/
theorem allocation_matching {x : NetSA} (hx : NetSA.Reachable P x) (hr : r < P.numRouters)
    {rnd : Nat → Nat} {t : Net} (ht : beforeAllocation P r rnd (x.net.fire (.router r)) = .ok t)
    (winners : Nat → Nat → Nat) :
    ∃ a t1 y, SwitchAllocator.arbitrateInports P r ⟨(x.alloc r).portRequests, winners⟩ t =
        .ok (a, t1) ∧
      SwitchAllocator.wakeup P r ⟨(x.alloc r).portRequests, winners⟩ t = .ok y ∧
      (y.grants.map Grant.inport).Nodup ∧ (y.grants.map Grant.outport).Nodup ∧
      (∀ g ∈ y.grants, a.portRequests g.outport g.inport = true ∧
        a.vcWinners g.outport g.inport = g.invc ∧ ∃ p op f w, GrantMade P r t y.net g p op f w) ∧
      (∀ o < (P.outports r).length, (∃ i < (P.inports r).length, a.portRequests o i = true) →
        ∃! g, g ∈ y.grants ∧ g.outport = o) ∧
      y.alloc.Clear ∧ RoundRobinOk P y.net := by
  obtain ⟨hreach, hclear⟩ := hx.refines
  have hfire : RoundRobinOk P (x.net.fire (.router r)) := (roundRobinOk hreach).of_router_eq rfl
  have hrr : RoundRobinOk P t := hfire.same ((beforeAllocation_rr r rnd _).of_ok t ht)
  have hctx : AllocContext P t := (allocContext P).routerState hr
    (.during hreach ((beforeAllocation_runs hr rnd _).of_ok ht))
  have ha : SwitchAllocator.Clear ⟨(x.alloc r).portRequests, winners⟩ := hclear r
  obtain ⟨a, t1, hfirst, h1⟩ := arbitrateInports_ok hctx hrr hr ha
  obtain ⟨y, hsecond, h2⟩ := arbitrateOutports_ok hr h1
  obtain ⟨t', hcheck, hbuf, hout, hsame⟩ := checkForWakeup_ok h2.context r
  have hwake : SwitchAllocator.wakeup P r ⟨(x.alloc r).portRequests, winners⟩ t =
      .ok ⟨y.grants, y.alloc.clearRequestVector P r, t'⟩ := by
    simp only [SwitchAllocator.wakeup, hfirst, hsecond, hcheck, bind, Except.bind]
    rfl
  obtain ⟨s', -, -, hleft⟩ := (SwitchAllocator.wakeup_same ha r t).of_ok hwake
  refine ⟨a, t1, _, hfirst, hwake, h2.inportsNodup, h2.outportsNodup, fun g hg => ?_,
    fun o ho hreq => ?_, hleft, h2.roundRobin.same hsame⟩
  · obtain ⟨hreq, hwin, p, op, f, w, hgr⟩ := h2.granted g hg
    exact ⟨hreq, hwin, p, op, f, w, hgr.keep (by rw [hout]) (by rw [hbuf]) (by rw [hbuf])⟩
  · obtain ⟨i, hi, hreq⟩ := hreq
    obtain ⟨g, hg, hgo⟩ := h2.covered o ho i hi hreq
    refine ⟨g, ⟨hg, hgo⟩, fun g' hg' => ?_⟩
    exact inj_on_of_nodup_map h2.outportsNodup hg'.1 hg (hg'.2.trans hgo.symm)

/-- In cycle `3` three flits ask for output port `2`, which is granted once. -/
theorem allocation_matching_three : ∃ x t y, NetSA.Reachable (.hub 0) x ∧
    beforeAllocation (.hub 0) 0 (fun _ => 0) (x.net.fire (.router 0)) = .ok t ∧
    SwitchAllocator.wakeup (.hub 0) 0 ⟨(x.alloc 0).portRequests, fun _ _ => 0⟩ t = .ok y ∧
    (y.grants.map Grant.outport).Nodup ∧ y.alloc.Clear := by
  have hrun : (orderedRun 10).map (fun s =>
      (beforeAllocation (.hub 0) 0 (fun _ => 0) (s.fire (.router 0))).toOption.isSome) =
        some true := by
    decide +kernel
  obtain ⟨s, hs, hbefore⟩ := Option.map_eq_some_iff.mp hrun
  obtain ⟨t, ht⟩ := Option.isSome_iff_exists.mp hbefore
  obtain ⟨x, hx, rfl⟩ := NetSA.exists_netSA (orderedRun_reachable hs)
  obtain ⟨a, t1, y, -, hwake, -, hout, -, -, hclear, -⟩ :=
    allocation_matching (r := 0) hx (by decide) (eq_ok_of_toOption ht) fun _ _ => 0
  exact ⟨x, t, y, hx, eq_ok_of_toOption ht, hwake, hout, hclear⟩

end NocSwap
