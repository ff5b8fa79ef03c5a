import NocSwap.Garnet.Correct.Refine.Pipeline

/-!
# Swaps as moves
-/

namespace NocSwap

open Function List Option

variable {P : Params} {s s' : Net} {r u d v : Nat} {p q : Port} {f g : Flit} {fs gs : List Flit}

/-! ### What swaps leave alone -/

/-- No channel has been filled, emptied, allocated or freed, and nothing outside the input channels
has changed. -/
structure SwapFrame (s s' : Net) : Prop where
  vc : s'.vc = s.vc
  outVc : s'.outVc = s.outVc
  credits : s'.credits = s.credits
  length : ∀ l v, (s'.buf (.inputVc l v)).length = (s.buf (.inputVc l v)).length
  elsewhere : ∀ b, (∀ l v, b ≠ .inputVc l v) → s'.buf b = s.buf b

theorem SwapFrame.same (hb : s'.buf = s.buf) (hv : s'.vc = s.vc) (ho : s'.outVc = s.outVc)
    (hc : s'.credits = s.credits) : SwapFrame s s' :=
  ⟨hv, ho, hc, fun _ _ => by rw [hb], fun _ _ => by rw [hb]⟩

theorem SwapFrame.rfl' : SwapFrame s s := .same rfl rfl rfl rfl

theorem SwapFrame.setStats (s : Net) (x : Stats) : SwapFrame s (s.setStats x) :=
  .same rfl rfl rfl rfl

theorem SwapFrame.setRouter (s : Net) (r : Nat) (x : RouterRegs) : SwapFrame s (s.setRouter r x) :=
  .same rfl rfl rfl rfl

theorem SwapFrame.trans {t : Net} (h : SwapFrame s s') (h' : SwapFrame s' t) : SwapFrame s t where
  vc := h'.vc.trans h.vc
  outVc := h'.outVc.trans h.outVc
  credits := h'.credits.trans h.credits
  length l v := (h'.length l v).trans (h.length l v)
  elsewhere b hb := (h'.elsewhere b hb).trans (h.elsewhere b hb)

theorem SwapFrame.clearRouted (s : Net) (r : Nat) : SwapFrame s (s.clearRouted P r) := by
  refine ⟨rfl, rfl, rfl, fun l v => ?_, fun b hb => ?_⟩
  · simp only [Net.clearRouted]
    split_ifs
    · cases s.buf (.inputVc l v) <;> rfl
    · rfl
  · cases b with
    | inputVc l v => exact absurd rfl (hb l v)
    | _ => rfl

theorem SwapFrame.exchange {l l' : Link} {f' g' : Flit} (hf : s.buf (.inputVc l v) = f :: fs)
    (hg : s.buf (.inputVc l' v) = g :: gs) (hvc : s'.vc = s.vc) (hout : s'.outVc = s.outVc)
    (hcr : s'.credits = s.credits)
    (hbuf : s'.buf = update (update s.buf (.inputVc l v) (g' :: fs))
      (.inputVc l' v) (f' :: gs)) : SwapFrame s s' := by
  refine ⟨hvc, hout, hcr, fun k w => ?_, fun b hb => ?_⟩
  · rw [hbuf]
    by_cases h2 : Buf.inputVc k w = .inputVc l' v
    · rw [h2, update_self, hg, length_cons, length_cons]
    rw [update_of_ne h2]
    by_cases h1 : Buf.inputVc k w = .inputVc l v
    · rw [h1, update_self, hf, length_cons, length_cons]
    · rw [update_of_ne h1]
  · rw [hbuf, update_of_ne (hb l' v), update_of_ne (hb l v)]

theorem exists_of_firstBaseVc {l : Link} (h : firstBaseVc P s l = some f) :
    ∃ vnet < P.virtualNetworks, ∃ fs, s.buf (.inputVc l (vnet * P.vcsPerVnet)) = f :: fs := by
  obtain ⟨vnet, hv, hf⟩ := exists_of_findSome?_eq_some h
  exact ⟨vnet, mem_range.mp hv, List.head?_eq_some_iff.mp hf⟩

theorem validateSwapPtr_outcome (hr : r < P.numRouters) (hi : P.interswap = true) (s : Net) :
    Outcome (validateSwapPtr P r s) (fun s' => Moves P (.router r) s s' ∧ SwapFrame s s')
      (Fails P (.router r) s) := by
  unfold validateSwapPtr
  cases hv : (s.router r).swapPtr.valid with
  | true => exact ⟨.rfl', .rfl'⟩
  | false =>
    simp only [Bool.false_eq_true, if_false]
    split
    case h_2 => exact ⟨Moves.rfl', .rfl'⟩
    case h_1 dirn f hfind =>
      obtain ⟨p, hp, hpf⟩ := exists_of_findSome?_eq_some hfind
      by_cases hl : p.dirn = .Local
      · simp [hl] at hpf
      simp only [hl, if_false, map_eq_some_iff, Prod.mk.injEq] at hpf
      obtain ⟨f, hf, rfl, rfl⟩ := hpf
      obtain ⟨vnet, hn, fs, hbuf⟩ := exists_of_firstBaseVc hf
      have hmesh : p.dirn.isMesh = true := (inport_dirn hp).resolve_left hl
      refine (makeSwapPtrValid_outcome ..).mono ?_ ?_
      case refine_2 =>
        rintro e ⟨rfl, h1, h2⟩
        exact .of_fault (.makeSwapPtrVcid hr h1 h2)
      rintro t rfl
      refine ⟨?_, .same rfl rfl rfl rfl⟩
      by_cases hout : f.outportDir.isMesh = true
      · simp only [arrivePtr, hv, hmesh, hout, Bool.false_eq_true, if_false, Bool.and_self, if_true]
        exact .one (.ptr hr hi (.make hv hp hmesh hn hbuf))
      · simp only [arrivePtr, hv, hmesh, hout, Bool.false_eq_true, if_false, Bool.true_and]
        rw [Net.setSwapPtr_self]
        exact .rfl'

theorem movSwapPtr_outcome (hr : r < P.numRouters) (hi : P.interswap = true)
    (hv : (s.router r).swapPtr.valid = true) (hpos : 0 ≤ (s.router r).swapPtr.inport) :
    Outcome (movSwapPtr P r s) (fun s' => Moves P (.router r) s s' ∧ SwapFrame s s')
      (Fails P (.router r) s) := by
  simp only [movSwapPtr, outcome_do]
  exact Outcome.intro
    (fun sp h => ⟨.one (.ptr hr hi (.next hv h)), .same rfl rfl rfl rfl⟩)
    (fun e he => .of_fault (.movSwapPtr hr hpos he ((movSwapPtr_faults ..).of_error he)))

theorem PtrAt.unique {sp : SwapPtr} {p' : Port} {v' : Nat} (h : PtrAt P r sp p v)
    (h' : PtrAt P r sp p' v') : p' = p ∧ v' = v := by
  refine ⟨some.inj (h'.port.symm.trans h.port), ?_⟩
  have h1 := h.vcid
  have h2 := h'.vcid
  omega

theorem ptrPort_outcome (r : Nat) (s : Net) :
    Outcome (ptrPort P r s) (fun p => 0 ≤ (s.router r).swapPtr.inport ∧
        (P.inports r)[(s.router r).swapPtr.inport.toNat]? = some p)
      (fun e => e ∈ ptrFaults ∧ ∀ p v, ¬ PtrAt P r (s.router r).swapPtr p v) := by
  simp only [ptrPort, outcome_do]
  exact ⟨fun h => ⟨fun p hp => ⟨h, hp⟩, fun hn => ⟨by decide, fun p v hat => by simp [hat.port] at hn⟩⟩,
    fun h => ⟨by decide, fun p v hat => h hat.inport_nonneg⟩⟩

theorem ptrVc_outcome (r : Nat) (s : Net) :
    Outcome (ptrVc P r s) (fun pv => PtrAt P r (s.router r).swapPtr pv.1 pv.2)
      (fun e => e ∈ ptrFaults ∧ ∀ p v, ¬ PtrAt P r (s.router r).swapPtr p v) := by
  simp only [ptrVc, outcome_do]
  refine (ptrPort_outcome r s).imp
    fun p hp => ⟨fun hv => ?_, fun hv => ⟨by decide, fun p' v hat => hv ?_⟩⟩
  · exact ⟨hp.1, hp.2, by omega, by omega⟩
  · have h1 := hat.vcid
    have h2 := hat.vc_lt
    omega

structure Pointed (P : Params) (r : Nat) (s : Net) (p : Port) (v : Nat) (f : Flit) (fs : List Flit) :
    Prop where
  router_lt : r < P.numRouters
  valid : (s.router r).swapPtr.valid = true
  ptr : PtrAt P r (s.router r).swapPtr p v
  head : s.buf (.inputVc p.link v) = f :: fs
  bound : f.outportDir ≠ .Local

theorem Pointed.port_mem (h : Pointed P r s p v f fs) : p ∈ P.inports r :=
  mem_of_getElem? h.ptr.port

theorem Pointed.congr {f' : Flit} {fs' : List Flit} (h : Pointed P r s p v f fs)
    (hsp : (s'.router r).swapPtr = (s.router r).swapPtr)
    (hb : s'.buf (.inputVc p.link v) = f' :: fs') (hd : f'.outportDir = f.outportDir) :
    Pointed P r s' p v f' fs' :=
  ⟨h.router_lt, hsp ▸ h.valid, hsp ▸ h.ptr, hb, hd ▸ h.bound⟩

theorem Pointed.clearRouted (h : Pointed P r s p v f fs) (u : Nat) :
    ∃ f', Pointed P r (s.clearRouted P u) p v f' fs := by
  by_cases hc : p.link ∈ (P.inports u).map (fun p => p.link) ∧ v < P.vcsPerVnet
  · refine ⟨{ f with routedSwap := false }, h.congr rfl ?_ rfl⟩
    simp only [Net.clearRouted, if_pos hc, h.head, unsetHead]
  · refine ⟨f, h.congr rfl ?_ rfl⟩
    simp only [Net.clearRouted, if_neg hc, h.head]

theorem outportNotLocal_outcome (hr : r < P.numRouters) (hv : (s.router r).swapPtr.valid = true) :
    Outcome (outportNotLocal P r s)
      (fun res => (∃ x, res.2 = s.setStats x) ∧
        (res.1 = true → ∃ p v f fs, Pointed P r s p v f fs ∧ res.2 = s)) (FaultAt P s) := by
  simp only [outportNotLocal, outcome_bind]
  refine (ptrVc_outcome r s).mono (fun pv hat => ?_)
    (fun e he => .ptrInvalid hr hv (fun p v hat => absurd hat (he.2 p v)) he.1)
  obtain ⟨p, v⟩ := pv
  have hp := mem_of_getElem? hat.port
  simp only [outcome_ite, outcome_pure]
  refine ⟨fun _ => ⟨⟨s.stats, rfl⟩, fun h => absurd h Bool.false_ne_true⟩, fun _ => ?_⟩
  cases hb : s.buf (.inputVc p.link v) with
  | nil => exact ⟨⟨_, rfl⟩, fun h => absurd h Bool.false_ne_true⟩
  | cons f fs =>
    simp only [outPort, outcome_do, outcome_ite]
    refine ⟨fun _ => ⟨fun o ho => ⟨fun _ => ⟨fun _ => ⟨⟨_, rfl⟩, ?_⟩, fun hl => ?_⟩,
      fun hm => ?_⟩, fun _ => .other (by decide)⟩, fun he => ?_⟩
    · exact fun h => absurd h Bool.false_ne_true
    · exact ⟨⟨s.stats, rfl⟩, fun _ => ⟨p, v, f, fs, hr, hv, hat, hb, hl⟩⟩
    · refine .outportDir hr hp hat.vc_lt hb (.inl ?_) (.inr rfl)
      simpa [Params.idx2dirn, ho] using hm
    · exact .outportDir hr hp hat.vc_lt hb (.inr (not_not.mp he)) (.inl rfl)

theorem downstream_spec {dirn : PortDirection} (h : downstream P dirn u = .ok d) :
    d < P.numRouters ∧ d ≠ u := by
  simp only [downstream, bind_eq_ok, require] at h
  obtain ⟨x, hx, _, hlt, hd⟩ := h
  have hxu : x ≠ u := by
    have hc := P.cols_pos
    cases dirn <;> simp only [getDownstreamId] at hx <;> cases hx <;> omega
  split_ifs at hlt with hrange
  cases hd
  omega

/-- The errors that an attempt to swap `f` of channel `v` of router `u` may end with. -/
def SwapError (P : Params) (u v : Nat) (f : Flit) (e : Fault) : Prop :=
  e ∈ [Fault.portOutOfRange, .vcOutOfRange, .noIsSwapValue, .enqueueLocal, .enqueueVc, .enqueueDirn,
    .doSwapLocal, .bailOutLocal, .bailOutFacing] ∨
  downstream P f.outportDir u = .error e ∨ (e = .swapVcid ∧ f.vc ≠ v) ∨
  ∃ t d rnd, d < P.numRouters ∧ routeCompute P t d f.route rnd = .error e

theorem Pointed.fault {e : Fault} (h : Pointed P u s p v f fs) (he : SwapError P u v f e) :
    FaultAt P s e := by
  have hmem : f ∈ s.buf (.inputVc p.link v) := h.head ▸ mem_cons_self ..
  rcases he with he | he | ⟨rfl, he⟩ | ⟨t, d, rnd, hd, he⟩
  · exact .other (by revert he; revert e; decide)
  · exact .downstream h.router_lt h.port_mem h.ptr.vc_lt h.head h.bound he
      ((downstream_faults ..).of_error he)
  · exact .swapVcid h.router_lt h.port_mem h.ptr.vc_lt h.head he
  · exact .routing hd hmem rfl he ((routeCompute_faults ..).of_error he)

theorem checkBailOut_outcome (hi : P.interswap = true) (h : Pointed P u s p v f fs) :
    Outcome (checkBailOut P u s)
      (fun s' => Moves P (.router u) s s' ∧ (s'.router u).swapPtr = (s.router u).swapPtr ∧
        SwapFrame s s' ∧ ∃ f' fs', Pointed P u s' p v f' fs') (Fails P (.router u) s) := by
  unfold checkBailOut
  by_cases h0 : P.noIsSwap = 0
  case neg =>
    simp only [h0, if_false, outcome_do]
    exact ⟨fun _ => ⟨.rfl', .rfl', f, fs, h⟩,
      fun _ => .of_fault (h.fault (.inl (by decide)))⟩
  simp only [h0, if_true, outcome_ite, outcome_pure]
  refine ⟨fun _ => ?_, fun _ => ⟨.rfl', trivial, .rfl', f, fs, h⟩⟩
  have hptr := h.ptr
  simp only [bailOut, inPort, outcome_do]
  refine ⟨fun _ => ?_, fun hn => .of_fault
    (.ptrInvalid h.router_lt h.valid (fun p v hat => ?_) (by decide))⟩
  case refine_2 =>
    have h1 := hat.inport_nonneg
    have h2 := hat.vcid
    exact absurd ⟨by omega, by omega⟩ hn
  refine (ptrVc_outcome u s).mono (fun pv hat => ?_) (fun _ he => absurd hptr (he.2 p v))
  obtain ⟨p', v'⟩ := pv
  obtain ⟨rfl, rfl⟩ := hptr.unique hat
  simp only [h.head, List.head?_cons, some.injEq, forall_eq', reduceCtorEq, false_implies, and_true]
  refine Outcome.intro (fun d hd => ?_) (fun e he => .of_fault (h.fault (.inr (.inl he))))
  refine ⟨fun _ => ⟨fun _ => ⟨fun facing _ => ⟨fun _ => ?_, ?_⟩, ?_⟩, ?_⟩, ?_⟩
  all_goals try exact fun _ => .of_fault (h.fault (.inl (by decide)))
  obtain ⟨hlt, hne⟩ := downstream_spec hd
  have hmove := Moves.one (Move.bailOut (s := s) hi h0 h.router_lt hlt)
  simp only [Net.setRouter_router, update_of_ne hne]
  refine ⟨hmove.then (.stats ..), ?_, ?_, ?_⟩
  case refine_1 => simp [update_of_ne hne.symm]
  case refine_2 =>
    exact (SwapFrame.setRouter s u _).trans <| (SwapFrame.setRouter _ d _).trans <|
      (SwapFrame.clearRouted _ u).trans <| (SwapFrame.clearRouted _ d).trans (.setStats ..)
  have hset : Pointed P u ((s.setRouter u { s.router u with isSwap := false }).setRouter d
      { s.router d with isSwap := false }) p' v' f fs :=
    h.congr (by simp [update_of_ne hne.symm]) h.head rfl
  obtain ⟨f1, h1⟩ := hset.clearRouted u
  obtain ⟨f2, h2⟩ := h1.clearRouted d
  exact ⟨f2, fs, h2.congr rfl h2.head rfl⟩

/-- The program `x` makes moves of router `u` that keep its swap pointer and what `SwapFrame` names.
-/
def RunsInPlace (P : Params) (u : Nat) (s : Net) (x : Act) : Prop :=
  Outcome x (fun s' => Moves P (.router u) s s' ∧ (s'.router u).swapPtr = (s.router u).swapPtr ∧
    SwapFrame s s') (Fails P (.router u) s)

theorem RunsInPlace.after {x : Act} (h : Moves P (.router u) s s')
    (hsp : (s'.router u).swapPtr = (s.router u).swapPtr) (hf : SwapFrame s s')
    (hx : RunsInPlace P u s' x) : RunsInPlace P u s x :=
  hx.mono (fun _ h' => ⟨h.trans h'.1, h'.2.1.trans hsp, hf.trans h'.2.2⟩) (fun _ => Fails.after h)

/-- The state after router `d` has given up the head of channel `v` of its port `q` and taken `f`.
-/
@[simps]
def handedOver (P : Params) (s : Net) (d v : Nat) (q : Port) (f : Flit) (fOut : Nat)
    (gs : List Flit) : Net :=
  { s with
    buf := update s.buf (.inputVc q.link v)
      (swappedFlit P d { f with routedSwap := true } fOut v :: gs)
    router := if P.noIsSwap = 0 then
        update s.router d { s.router d with isSwap := true } else s.router }

structure Handed (P : Params) (s : Net) (u d v : Nat) (q : Port) (f g : Flit) (gs : List Flit)
    (fOut : Nat) : Prop where
  downstream_eq : downstream P f.outportDir u = .ok d
  facing : (P.inports d)[Params.dirn2idx (P.inports d) (getDownstreamDirn f.outportDir)]? = some q
  notSwapped : P.noIsSwap = 0 → (s.router d).isSwap = false
  head : s.buf (.inputVc q.link v) = g :: gs
  bound : g.outportDir ≠ .Local
  route : RoutesTo P d f.route fOut

theorem doSwap_outcome (hptr : PtrAt P u (s.router u).swapPtr p v) (f : Flit) (rnd : Nat) :
    Outcome (doSwap P f u rnd s)
      (fun res => (∃ x, res = (none, s.setStats x)) ∨ ∃ d q g gs fOut,
        Handed P s u d v q f g gs fOut ∧ res = (some g, handedOver P s d v q f fOut gs))
      (SwapError P u v f) := by
  have hother {e : Fault} (h : e ∈ [Fault.portOutOfRange, .vcOutOfRange, .noIsSwapValue,
      .enqueueLocal, .enqueueVc, .doSwapLocal]) : SwapError P u v f e :=
    .inl (by revert h; revert e; decide)
  simp only [doSwap, outcome_do, outcome_ite]
  refine Outcome.intro (fun d hd => ?_) (fun e he => .inr (.inl he))
  refine ⟨fun _ => ⟨fun hgo => ⟨fun hvc => ?_, fun hvc => ?_⟩, fun _ => .inl ⟨s.stats, rfl⟩⟩,
    fun _ => hother (by decide)⟩
  case refine_2 => exact .inr (.inr (.inl ⟨rfl, fun h => hvc (by rw [hptr.vcid, h])⟩))
  have hnot : ¬ (decide (P.noIsSwap = 0) && (s.router d).isSwap) = true := by
    intro h
    rw [Bool.and_eq_true, decide_eq_true_eq] at h
    exact absurd (hgo.1 h.1) (by simp [h.2])
  have hv : 0 ≤ (v : Int) ∧ (v : Int) < P.numVcs := ⟨by omega, by exact_mod_cast hptr.vc_lt⟩
  simp only [routerDoSwap, hptr.vcid, if_neg hnot, inVc, inPort, outcome_do, Int.toNat_natCast]
  refine ⟨fun _ => ⟨fun _ => ⟨fun q hq => ⟨fun _ => ?_, ?_⟩, ?_⟩, ?_⟩, ?_⟩
  all_goals try exact fun _ => hother (by decide)
  cases hb : s.buf (.inputVc q.link v) with
  | nil => exact .inl ⟨_, rfl⟩
  | cons g gs =>
    by_cases hg : g.outportDir = .Local
    · simp only [hg, if_true, outcome_pure]
      exact .inl ⟨s.stats, rfl⟩
    simp only [hg, if_false, outcome_do, doSwapEnqueue, enqueueInport, inVc, inPort,
      Int.toNat_natCast, hq, some.injEq, forall_eq']
    refine ⟨fun _ => ?_, fun _ => hother (by decide)⟩
    refine Outcome.intro (fun fOut hfo => ?_)
      (fun e he => .inr (.inr (.inr ⟨_, d, rnd, (downstream_spec hd).1, he⟩)))
    refine ⟨fun _ => ⟨fun _ => ⟨⟨fun _ => .inr ⟨d, q, g, gs, fOut,
      ⟨hd, hq, hgo.1, hb, hg, _, _, hfo⟩, ?_⟩, ?_⟩, ?_⟩, ?_⟩, ?_⟩
    all_goals try exact fun _ => hother (by decide)
    by_cases h0 : P.noIsSwap = 0 <;>
    simp [h0, handedOver, swappedFlit, Net.setBuf, Net.setRouter]

theorem markRouted_outcome (r : Nat) (f : Flit) (s : Net) : Outcome (markRouted P r f s)
      (fun s' => (P.noIsSwap = 0 → f.routedSwap = true → (s.router r).isSwap = true) ∧
        s' = s.setRouter r { s.router r with
          sendRoutedSwap := f.routedSwap || (s.router r).sendRoutedSwap })
      (fun e => e = .routedIsSwap ∧ f.routedSwap = true ∧ P.noIsSwap = 0 ∧
        (s.router r).isSwap = false) := by
  unfold markRouted
  cases hf : f.routedSwap with
  | true =>
    simp only [if_true, routedSwapCheck, outcome_do, Classical.not_imp, Bool.not_eq_true,
      Bool.true_or]
    exact ⟨fun h h0 _ => h h0, id⟩
  | false =>
    simp [Net.setRouter]

theorem endRoutedSwap_outcome (r : Nat) (s : Net) : Outcome (endRoutedSwap P r s)
      (fun s' => ∃ x, s' = (s.setRouter r { s.router r with
        sendRoutedSwap := false
        isSwap := if (s.router r).sendRoutedSwap then false else (s.router r).isSwap }).setStats x)
      (fun e => e = .routedIsSwap ∧ (s.router r).sendRoutedSwap = true ∧ P.noIsSwap = 0 ∧
        (s.router r).isSwap = false) := by
  unfold endRoutedSwap
  cases hs : (s.router r).sendRoutedSwap with
  | true =>
    simp only [if_true, routedSwapCheck, outcome_do, Classical.not_imp, Bool.not_eq_true]
    exact ⟨fun _ => ⟨_, rfl⟩, id⟩
  | false =>
    have hself : { s.router r with sendRoutedSwap := false } = s.router r := by rw [← hs]
    refine ⟨s.stats, ?_⟩
    simp [Net.setRouter, Net.setStats, hself]

theorem inport_link_ne (hu : u < P.numRouters) (hd : d < P.numRouters) (hne : d ≠ u)
    (hp : p ∈ P.inports u) (hq : q ∈ P.inports d) : p.link ≠ q.link := by
  intro h
  have h1 := inport_consumer hu hp
  rw [h, inport_consumer hd hq] at h1
  exact hne (Params.Sink.router.inj h1)

theorem forall_inport {r : Nat} {p : Port} {φ : Nat → Prop} (hr : r < P.numRouters)
    (hp : p ∈ P.inports r) (h : φ r) :
    ∀ r' < P.numRouters, ∀ q ∈ P.inports r', q.link = p.link → φ r' := by
  intro r' hr' q hq hl
  obtain rfl : r' = r := by
    by_contra hne
    exact inport_link_ne hr hr' hne hp hq hl.symm
  exact h

theorem Handed.ends (h : Handed P s u d v q f g gs fOut) (hp : Pointed P u s p v f fs) :
    SwapEnds P s u d v p q f fs :=
  ⟨hp.router_lt, hp.valid, hp.ptr, hp.head, hp.bound, h.downstream_eq, h.facing, h.notSwapped⟩

/-- The second half of a swap completes a move. -/
theorem finishSwap_runs {fOut : Nat} (hi : P.interswap = true) (h : Pointed P u s p v f fs)
    (hrouted : P.noIsSwap = 0 → f.routedSwap = true → (s.router u).isSwap = true)
    (hh : Handed P s u d v q f g gs fOut) (rnd : Nat) :
    RunsInPlace P u s (finishSwap P u p v f g rnd (handedOver P (s.setRouter u
      { s.router u with sendRoutedSwap := f.routedSwap || (s.router u).sendRoutedSwap })
      d v q f fOut gs)) := by
  obtain ⟨hlt, hne⟩ := downstream_spec hh.downstream_eq
  have hlink := inport_link_ne h.router_lt hlt hne h.port_mem (mem_of_getElem? hh.facing)
  have hg : g ∈ s.buf (.inputVc q.link v) := hh.head ▸ mem_cons_self ..
  have hother {e : Fault} (he : e ∈ [Fault.enqueueLocal, .enqueueVc, .enqueueDirn, .portOutOfRange,
      .vcOutOfRange]) : Fails P (.router u) s e :=
    .of_fault (.other (by revert he; revert e; decide))
  set send := f.routedSwap || (s.router u).sendRoutedSwap with hsend
  set t := handedOver P (s.setRouter u { s.router u with sendRoutedSwap := send }) d v q f fOut gs
    with ht
  have hreg : t.router u = { s.router u with sendRoutedSwap := send } := by
    by_cases h0 : P.noIsSwap = 0 <;>
      simp [ht, handedOver, h0, update_of_ne hne.symm]
  have hbuf : t.buf (.inputVc p.link v) = f :: fs := by
    rw [ht, handedOver_buf, update_of_ne (by simpa using hlink)]
    exact h.head
  have hv : 0 ≤ (v : Int) ∧ (v : Int) < P.numVcs := ⟨by omega, by exact_mod_cast h.ptr.vc_lt⟩
  simp only [RunsInPlace, finishSwap, hbuf, tail_cons, doSwapEnqueue, enqueueInport, inVc, inPort,
    Net.setBuf_router, hreg, h.ptr.vcid, h.ptr.inport_nonneg, h.ptr.port, hv, outcome_do,
    some.injEq, forall_eq']
  refine ⟨fun _ => ?_, fun _ => hother (by decide)⟩
  refine Outcome.intro (fun gOut hgo => ?_)
    (fun e he => .of_fault (.routing h.router_lt hg rfl he ((routeCompute_faults ..).of_error he)))
  refine ⟨fun _ => ⟨fun hgr => ⟨fun _ => ?_, fun _ => hother (by decide)⟩, fun hgr => ?_⟩,
    fun _ => hother (by decide)⟩
  case refine_2 =>
    rw [Classical.not_imp, Bool.not_eq_false] at hgr
    exact .of_fault (.enqueueRouted (hh.ends h) hh.head hgr.1 hgr.2)
  simp only [true_implies, not_true_eq_false, false_implies, and_true, reduceCtorEq]
  refine (endRoutedSwap_outcome ..).mono ?_ ?_
  case refine_2 =>
    rintro e ⟨rfl, h1, h2, h3⟩
    simp only [Net.logSwap_router, Net.setStats_router, Net.setBuf_router, hreg] at h1 h3
    exact .of_fault (.routedIsSwap h.router_lt h.port_mem h.ptr.vc_lt h.head
      (by simpa [hsend] using h1) h2 h3)
  rintro t' ⟨x, ht'⟩
  have hswap : SwapAt P s u d v p q f g fs gs fOut gOut :=
    ⟨hh.ends h, hh.head, hh.bound, hrouted, hgr, hh.route, _, _, hgo⟩
  have hplace : Buf.inputVc p.link v ≠ .inputVc q.link v := by simpa using hlink
  have hbufs : update t.buf (.inputVc p.link v) (swappedFlit P u g gOut v :: fs) =
      update (update s.buf (.inputVc p.link v) (swappedFlit P u g gOut v :: fs))
        (.inputVc q.link v) (swappedFlit P d { f with routedSwap := true } fOut v :: gs) :=
    update_comm hplace.symm ..
  have hregs : update t.router u { s.router u with
      sendRoutedSwap := false
      isSwap := if send then false else (s.router u).isSwap } = swapRegs P s u d f := by
    by_cases h0 : P.noIsSwap = 0 <;>
      simp [ht, handedOver, swapRegs, h0, hsend, Net.setRouter, update_of_ne hne, update_comm hne]
  have heq : t' = { s with
      buf := update
        (update s.buf (.inputVc p.link v) (swappedFlit P u g gOut v :: fs))
        (.inputVc q.link v) (swappedFlit P d { f with routedSwap := true } fOut v :: gs)
      router := swapRegs P s u d f
      swapLog := (s.now, f, g) :: s.swapLog
      stats := x } := by
    rw [ht', ← hbufs, ← hregs]
    simp only [Net.setStats, Net.setRouter, Net.logSwap, Net.setBuf, Int.toNat_natCast,
      update_self, update_idem, hreg]
    rfl
  subst heq
  refine ⟨(Moves.one (.swap hi hswap)).then (.stats _ x), ?_, ?_⟩
  · show (swapRegs P s u d f u).swapPtr = _
    rw [swapRegs, update_self]
  · exact .exchange h.head hh.head rfl rfl rfl rfl

theorem Net.setRouter_setStats (s : Net) (r : Nat) (x y : RouterRegs) (z : Stats) :
    ((s.setRouter r x).setStats z).setRouter r y = (s.setRouter r y).setStats z := by
  simp [Net.setRouter, Net.setStats]

theorem failSwap_runs (h : Pointed P u s p v f fs) (x : Stats) :
    RunsInPlace P u s (failSwap P u ((s.setRouter u { s.router u with
      sendRoutedSwap := f.routedSwap || (s.router u).sendRoutedSwap }).setStats x)) := by
  unfold failSwap
  cases hsend : f.routedSwap || (s.router u).sendRoutedSwap with
  | true =>
    simp only [Net.setStats_router, Net.setRouter_router, update_self, if_true, RunsInPlace,
      routedSwapCheck, outcome_do, Classical.not_imp, Bool.not_eq_true]
    refine ⟨fun _ => ?_, fun hn => .of_fault (.routedIsSwap h.router_lt h.port_mem h.ptr.vc_lt h.head
      (by simpa using hsend) hn.1 hn.2)⟩
    rw [Net.setRouter_setStats]
    exact ⟨(Moves.one (.clearSend u)).then (.stats ..), .same rfl rfl rfl rfl⟩
  | false =>
    have hself : { s.router u with sendRoutedSwap := false } = s.router u := by
      rw [← (Bool.or_eq_false_iff.mp hsend).2]
    simp only [Net.setStats_router, Net.setRouter_router, update_self, Bool.false_eq_true, if_false]
    rw [hself, Net.setRouter, update_eq_self]
    exact ⟨Moves.one (.stats ..), rfl, .same rfl rfl rfl rfl⟩

theorem trySwap_runs (hi : P.interswap = true) (h : Pointed P u s p v f fs) (rnd : Nat → Nat) :
    RunsInPlace P u s (trySwap P u rnd s) := by
  have hstats {x : Stats} : Moves P (.router u) s (s.setStats x) := .one (.stats _ x)
  simp only [RunsInPlace, trySwap, outcome_bind]
  have h' {x : Stats} : Pointed P u (s.setStats x) p v f fs := h.congr rfl h.head rfl
  refine (checkBailOut_outcome hi h').mono (fun s1 hbail => ?_) (fun _ he => .after hstats he)
  obtain ⟨hm, hsp, hfr, f1, fs1, h1⟩ := hbail
  replace hm := hstats.trans hm
  replace hfr : SwapFrame s s1 := (SwapFrame.setStats s _).trans hfr
  refine (ptrVc_outcome u s1).mono (fun pv hat => ?_) (fun _ he => absurd h1.ptr (he.2 p v))
  obtain ⟨p', v'⟩ := pv
  obtain ⟨rfl, rfl⟩ := h1.ptr.unique hat
  simp only [outcome_orFail, h1.head, List.head?_cons, some.injEq, forall_eq', reduceCtorEq,
    false_implies, and_true]
  refine (markRouted_outcome u f1 s1).mono (fun s2 hmark => ?_) (fun e he => ?_)
  case refine_2 =>
    obtain ⟨rfl, h2, h3, h4⟩ := he
    exact .after hm (.of_fault (.routedIsSwap h1.router_lt h1.port_mem h1.ptr.vc_lt h1.head (.inl h2)
      h3 h4))
  obtain ⟨hrouted, rfl⟩ := hmark
  have hptr : PtrAt P u ((s1.setRouter u { s1.router u with
      sendRoutedSwap := f1.routedSwap || (s1.router u).sendRoutedSwap }).router u).swapPtr p' v' := by
    simpa using h1.ptr
  refine (doSwap_outcome hptr f1 (rnd 0)).mono (fun res hres => ?_)
    (fun _ he => .after hm (.of_fault (h1.fault he)))
  rcases hres with ⟨x, rfl⟩ | ⟨d, q, g, gs, fOut, hh, rfl⟩
  · exact (failSwap_runs h1 x).after hm hsp hfr
  · have hne := (downstream_spec hh.downstream_eq).2
    have hh' : Handed P s1 u d v' q f1 g gs fOut :=
      { hh with notSwapped := by simpa [update_of_ne hne] using hh.notSwapped }
    exact (finishSwap_runs hi h1 hrouted hh' (rnd 1)).after hm hsp hfr

theorem swapTurn_outcome (hr : r < P.numRouters) (hi : P.interswap = true)
    (hv : (s.router r).swapPtr.valid = true) (rnd : Nat → Nat) :
    Outcome (swapTurn P r rnd s) (fun s' => Moves P (.router r) s s' ∧ SwapFrame s s')
      (Fails P (.router r) s) := by
  simp only [swapTurn, outcome_do]
  refine (ptrPort_outcome r s).mono (fun p hp => ⟨fun _ => ⟨fun _ => ?_, fun hn => ?_⟩, fun hn => ?_⟩)
    (fun e he => .of_fault (.ptrInvalid hr hv (fun p v hat => absurd hat (he.2 p v)) he.1))
  case refine_2 =>
    refine .of_fault (.ptrInvalid hr hv (fun p v hat => ?_) (by decide))
    have h1 := hat.inport_nonneg
    have h2 := hat.vcid
    exact absurd ⟨by omega, by omega⟩ hn
  case refine_3 =>
    refine .of_fault (.ptrInvalid hr hv (fun p' v hat => ?_) (by decide))
    rwa [some.inj (hat.port.symm.trans hp.2)]
  refine (outportNotLocal_outcome hr hv).mono (fun res hres => ?_) (fun _ he => .of_fault he)
  obtain ⟨go, t⟩ := res
  cases go with
  | true =>
    obtain ⟨p, v, f, fs, hpt, rfl⟩ := hres.2 rfl
    simp only [if_true, outcome_bind]
    refine (trySwap_runs hi hpt rnd).imp fun s1 hruns => ?_
    obtain ⟨hm, hsp, hfr⟩ := hruns
    exact (movSwapPtr_outcome hr hi (hsp ▸ hv) (hsp ▸ hp.1)).mono
      (fun _ h2 => ⟨hm.trans h2.1, hfr.trans h2.2⟩) (fun _ => Fails.after hm)
  | false =>
    obtain ⟨x, rfl⟩ := hres.1
    simp only [Bool.false_eq_true, if_false]
    have hm : Moves P (.router r) s (s.setStats x) := .one (.stats _ x)
    exact (movSwapPtr_outcome (s := s.setStats x) hr hi hv hp.1).mono
      (fun _ h2 => ⟨hm.trans h2.1, (SwapFrame.setStats s x).trans h2.2⟩)
      (fun _ => Fails.after hm)

theorem swapWakeup_outcome (hr : r < P.numRouters) (hi : P.interswap = true) (rnd : Nat → Nat)
    (s : Net) : Outcome (swapWakeup P r rnd s) (fun s' => Moves P (.router r) s s' ∧ SwapFrame s s')
      (Fails P (.router r) s) := by
  rw [swapWakeup, outcome_bind]
  refine (validateSwapPtr_outcome hr hi s).imp fun s1 ⟨hm, hfr⟩ => ?_
  by_cases hturn : (isMyTurn P r s1 && (s1.router r).swapPtr.valid) = true
  · simp only [hturn, if_true]
    exact (swapTurn_outcome hr hi (Bool.and_eq_true _ _ ▸ hturn).2 rnd).mono
      (fun _ h2 => ⟨hm.trans h2.1, hfr.trans h2.2⟩) (fun _ => Fails.after hm)
  · simp only [hturn, if_false, Bool.false_eq_true]
    exact ⟨hm, hfr⟩

theorem routerWakeup_outcome (hr : r < P.numRouters) (rnd : Nat → Nat) (s : Net) :
    Outcome (routerWakeup P r rnd s) (fun s' => Moves P (.router r) s s' ∧ Rechecked P r s')
      (Fails P (.router r) s) := by
  unfold routerWakeup
  by_cases hi : P.interswap = true
  · simp only [hi, if_true, outcome_bind]
    refine (swapWakeup_outcome hr hi rnd s).imp fun s1 hswap => ?_
    obtain ⟨h1, -⟩ := hswap
    exact (pipelineWakeup_outcome hr rnd s1).mono (fun _ h2 => ⟨h1.trans h2.1, h2.2⟩)
      (fun _ he => .after h1 he)
  · simp only [hi, if_false, Bool.false_eq_true]
    exact pipelineWakeup_outcome hr rnd s

end NocSwap
