import NocSwap.Garnet.Correct.Credits
import NocSwap.Garnet.Correct.Pointer

/-!
# Attempts to swap

A router whose turn it is tries to swap the flit of its pointer with one of the facing port. In every
cycle that is a multiple of 1000 it bails out first, and `bail_out` asserts that the facing port is
full. By the credits the router itself could tell: its output channel is active and nothing of the
channel is on its way.
-/

namespace NocSwap

variable {P : Params} {s t : Net} {r : Nat}

structure Attempts (P : Params) (r : Nat) (s t : Net) : Prop where
  interswap : P.interswap = true
  reached : ∃ s₁, validateSwapPtr P r (s.fire (.router r)) = .ok s₁ ∧ isMyTurn P r s₁ = true ∧
    (s₁.router r).swapPtr.valid = true ∧ outportNotLocal P r s₁ = .ok (true, t)

def Net.initiated (s : Net) : Net :=
  s.setStats { s.stats with totalInitiatedSwaps := s.stats.totalInitiatedSwaps + 1 }

/-- The pointer of router `r` names `f`, at the head of channel `v` of port `p`, bound for `d`. -/
structure BoundPointed (P : Params) (r : Nat) (s : Net) (p : Port) (v : Nat) (f : Flit)
    (fs : List Flit) (d : Nat) : Prop extends Pointed P r s p v f fs where
  nbr : P.nbr r f.outportDir = some d

/-- A flit for which `outportNotLocal` answers `true` is bound for a neighbour. -/
theorem outportNotLocal_bound (hr : r < P.numRouters) (hv : (s.router r).swapPtr.valid = true) :
    Outcome (outportNotLocal P r s)
      (fun res => res.1 = true → res.2 = s ∧ ∃ p v f fs d, BoundPointed P r s p v f fs d)
      (fun _ => True) := by
  simp only [outportNotLocal, outcome_bind]
  refine (ptrVc_outcome r s).onOk fun pv hat => ?_
  obtain ⟨p, v⟩ := pv
  dsimp only
  split_ifs
  · simp
  cases hbuf : s.buf (.inputVc p.link v) with
  | nil => simp
  | cons f fs =>
    simp only [outPort, outcome_do, outcome_ite, Bool.false_eq_true, false_implies, forall_const]
    intro _ o ho hdir hloc
    rcases mem_outports.mp (List.mem_of_getElem? ho) with ⟨n, -, -, rfl⟩ | ⟨d, w, hw, rfl⟩
    · exact absurd hdir.symm hloc
    · exact ⟨p, v, f, fs, w, ⟨hr, hv, hat, hbuf, hloc⟩, hdir ▸ hw⟩

theorem PtrAt.ptrPort_eq {p : Port} {v : Nat} (h : PtrAt P r (s.router r).swapPtr p v) :
    ptrPort P r s = .ok p := by
  simp [ptrPort, require, orFail, h.inport_nonneg, h.port, bind, Except.bind]

theorem PtrAt.ptrVc_eq {p : Port} {v : Nat} (h : PtrAt P r (s.router r).swapPtr p v) :
    ptrVc P r s = .ok (p, v) := by
  rw [ptrVc, h.ptrPort_eq]
  simp [require, h.vcid, h.vc_lt, bind, Except.bind, pure, Except.pure]

theorem inPort_facing {u d : Nat} {dirn : PortDirection} (hu : u < P.numRouters)
    (h : P.nbr u dirn = some d) :
    inPort P d (Params.dirn2idx (P.inports d) (getDownstreamDirn dirn)) =
      .ok ⟨getDownstreamDirn dirn, .int u dirn⟩ := by
  simp [inPort, require, orFail, facing_inport hu h, bind, Except.bind]

theorem attempts_of_valid (hi : P.interswap = true) (hr : r < P.numRouters)
    (hv : (s.router r).swapPtr.valid = true) (hturn : isMyTurn P r s = true)
    (hout : (outportNotLocal P r (s.fire (.router r))).toOption.map (fun x => x.1) = some true) :
    Attempts P r s (s.fire (.router r)) := by
  obtain ⟨⟨go, t⟩, hgo, hgo'⟩ := Option.map_eq_some_iff.mp hout
  obtain rfl : go = true := hgo'
  have hres := eq_ok_of_toOption hgo
  have hv' : ((s.fire (.router r)).router r).swapPtr.valid = true := hv
  have ht : t = s.fire (.router r) := ((outportNotLocal_bound hr hv').of_ok hres rfl).1
  rw [ht] at hres
  have hvalidate : validateSwapPtr P r (s.fire (.router r)) = .ok (s.fire (.router r)) := if_pos hv'
  exact ⟨hi, s.fire (.router r), hvalidate, hturn, hv', hres⟩

theorem Attempts.turn (hr : r < P.numRouters) (hat : Attempts P r s t) :
    validateSwapPtr P r (s.fire (.router r)) = .ok t ∧ isMyTurn P r t = true ∧
      (t.router r).swapPtr.valid = true ∧ outportNotLocal P r t = .ok (true, t) ∧
      ∃ p v f fs d, BoundPointed P r t p v f fs d := by
  obtain ⟨s₁, hs₁, hturn, hv, hout⟩ := hat.reached
  obtain ⟨heq, hpt⟩ := (outportNotLocal_bound hr hv).of_ok hout rfl
  obtain rfl : t = s₁ := heq
  exact ⟨hs₁, hturn, hv, hout, hpt⟩

theorem Attempts.inductive {I : Net → Prop} (hI : Inductive P I) (h : Reachable P s)
    (hr : r < P.numRouters) (hat : Attempts P r s t) : I t := by
  have hmoves := ((validateSwapPtr_outcome hr hat.interswap _).of_ok (hat.turn hr).1).1
  have hfire := hI.fire s (.router r) (hI.reachable h)
  exact hI.moves (mem_consumers.mpr hr) hfire hmoves

theorem Attempts.now_eq (hr : r < P.numRouters) (hat : Attempts P r s t) : t.now = s.now :=
  ((validateSwapPtr_outcome hr hat.interswap _).of_ok (hat.turn hr).1).1.now_eq

theorem Attempts.pointersOk (h : Reachable P s) (hr : r < P.numRouters) (hat : Attempts P r s t) :
    PointersOk P t :=
  (hat.inductive ((NocSwap.pointersOk hat.interswap).and (namesVc P)) h hr).2

theorem Attempts.wakeup (h : Reachable P s) (hr : r < P.numRouters) (hat : Attempts P r s t)
    (rnd : Nat → Nat) : exec P (.wake (.router r) rnd) s =
      (trySwap P r rnd t >>= movSwapPtr P r) >>= pipelineWakeup P r rnd := by
  obtain ⟨hvalidate, hturn, hv, hout, -⟩ := hat.turn hr
  obtain ⟨p, v, hptr, -, hdirn, -⟩ := (hat.pointersOk h hr).ptrAt hr hv
  have hne : (t.router r).swapPtr.inport ≠ -1 ∧ (t.router r).swapPtr.vcid ≠ -1 := by
    have h1 := hptr.inport_nonneg
    have h2 := hptr.vcid
    omega
  have hswap : swapTurn P r rnd t = trySwap P r rnd t >>= movSwapPtr P r := by
    rw [swapTurn, hptr.ptrPort_eq]
    simp [bind, Except.bind, require, if_pos hdirn, if_pos hne, hout]
  show routerWakeup P r rnd (s.fire (.router r)) = _
  rw [routerWakeup, if_pos hat.interswap, swapWakeup, hvalidate]
  simp [bind, Except.bind, hturn, hv, hswap]

theorem trySwap_checkBailOut (rnd : Nat → Nat) {e : Fault}
    (he : checkBailOut P r t.initiated = .error e) : trySwap P r rnd t = .error e := by
  show (checkBailOut P r t.initiated >>= _) = _
  rw [he]
  rfl

theorem checkBailOut_eq (h0 : P.noIsSwap = 0) (hnow : t.now % 1000 = 0) :
    checkBailOut P r t.initiated = bailOut P r t.initiated >>= fun s =>
      pure (s.setStats { s.stats with totalBailout := s.stats.totalBailout + 1 }) := by
  rw [checkBailOut, if_pos h0]
  exact if_pos (decide_eq_true hnow)

theorem checkBailOut_of_ne (h0 : P.noIsSwap = 0) (hnow : t.now % 1000 ≠ 0) :
    checkBailOut P r t.initiated = .ok t.initiated := by
  rw [checkBailOut, if_pos h0]
  exact if_neg fun h => hnow (of_decide_eq_true h)

/-! ### What a router knows of the facing port -/

/-- No flit is on its way to channel `v` of link `l`, and no credit for it on its way back. -/
def NothingUnderWay (P : Params) (s : Net) (l : Link) (v : Nat) : Prop :=
  (∀ b ∈ places P, b ≠ .inputVc l v → ∀ f ∈ s.buf b, tokenWeight P l v b f = 0) ∧
    ∀ c ∈ s.credits (.queue l) ++ s.credits (.link l), c.vc ≠ v

theorem creditTokens_eq_zero {l : Link} {v : Nat} : creditTokens s l v = 0 ↔
    ∀ c ∈ s.credits (.queue l) ++ s.credits (.link l), c.vc ≠ v := by
  simp [creditTokens, creditCount, or_imp, forall_and]

/-- The channel at the other end of a link is occupied if and only if the output channel is active
and nothing of it is on its way. -/
theorem SendersOk.occupied_iff (h : SendersOk P s) {u v : Nat} {dirn : PortDirection}
    (hl : .int u dirn ∈ P.links) (hv : v < P.numVcs) : s.buf (.inputVc (.int u dirn) v) ≠ [] ↔
      (s.outVc (.int u dirn) v).state = .active ∧ NothingUnderWay P s (.int u dirn) v := by
  have hch := h.channel (.int u dirn) v
  have hone := hch.one
  have hplace : Buf.inputVc (.int u dirn) v ∈ places P := mem_places.mpr ⟨hl, hv⟩
  constructor
  · intro hne
    have hpos := List.length_pos_iff.mpr hne
    have hweight := weight_inputVc (P := P) (.int u dirn) (.int u dirn) v v
      (s.buf (.inputVc (.int u dirn) v))
    rw [if_pos ⟨rfl, rfl⟩] at hweight
    have hle := Ledger.weight_le_tally (w := tokenWeight P (.int u dirn) v) (c := s.buf) hplace
    unfold tokens flitTokens at hone
    refine ⟨?_, fun b hb hne' f hf => ?_, creditTokens_eq_zero.mp (by omega)⟩
    · rw [hch.state, if_neg]
      unfold tokens flitTokens
      omega
    · have hsum := Ledger.add_le_tally (w := tokenWeight P (.int u dirn) v) (c := s.buf) hb hplace hne'
      exact Ledger.weight_eq_zero.mp (by omega) f hf
  · rintro ⟨hactive, hflits, hcredits⟩ hnil
    -- without a token the output channel would be idle
    have hzero : tokens P s (.int u dirn) v = 0 := by
      rw [tokens, creditTokens_eq_zero.mpr hcredits, add_zero, flitTokens, Ledger.tally_eq_zero]
      intro b hb f hf
      by_cases hb' : b = .inputVc (.int u dirn) v
      · rw [hb', hnil] at hf
        cases hf
      · exact hflits b hb hb' f hf
    rw [hch.state, hzero] at hactive
    cases hactive

theorem Attempts.sendersOk (h : Reachable P s) (hr : r < P.numRouters) (hat : Attempts P r s t) :
    SendersOk P t :=
  (hat.inductive ((NocSwap.sendersOk P).and (headTail P)) h hr).2

/-! ### Bailing out -/

/-- The assertions of `bail_out` hold if and only if no channel of virtual network `0` of the facing
port is empty; otherwise the one on these channels fails. -/
theorem bailOut_facing {p : Port} {v d : Nat} {f : Flit} {fs : List Flit}
    (hr : r < P.numRouters) (hpt : BoundPointed P r t p v f fs d) :
    ((∃ t', bailOut P r t.initiated = .ok t') ↔
        ∀ w < P.vcsPerVnet, t.buf (.inputVc (.int r f.outportDir) w) ≠ []) ∧
      ∀ e, bailOut P r t.initiated = .error e → e = .bailOutFacing := by
  have hptr : PtrAt P r (t.initiated.router r).swapPtr p v := hpt.ptr
  have hset : (t.initiated.router r).swapPtr.inport ≠ -1 ∧
      (t.initiated.router r).swapPtr.vcid ≠ -1 := by
    have h1 := hptr.inport_nonneg
    have h2 := hptr.vcid
    omega
  have hhead : (t.initiated.buf (.inputVc p.link v)).head? = some f := by
    rw [show t.initiated.buf (.inputVc p.link v) = f :: fs from hpt.head]
    rfl
  have hloc := mesh_ne_local (getDownstreamDirn_isMesh (nbr_isMesh hpt.nbr))
  have hfull : (((List.range P.vcsPerVnet).all fun w =>
      !(t.initiated.buf (.inputVc (.int r f.outportDir) w)).isEmpty) = true) ↔
      ∀ w < P.vcsPerVnet, t.buf (.inputVc (.int r f.outportDir) w) ≠ [] := by
    simp [Net.initiated]
  rw [← hfull, bailOut, require, if_pos hset, hptr.ptrVc_eq]
  simp only [bind, Except.bind, hhead, orFail, downstream_of_nbr hr hpt.nbr, require,
    inPort_facing hr hpt.nbr, ne_eq, hloc, not_false_eq_true, if_true]
  split_ifs with hall
  · refine ⟨iff_of_true ⟨_, rfl⟩ hall, fun e he => ?_⟩
    cases he
  · refine ⟨iff_of_false ?_ hall, fun e he => (Except.error.inj he).symm⟩
    rintro ⟨t', ht'⟩
    cases ht'

/-- **When an attempt survives the check for a deadlock**: if and only if the cycle is not a multiple
of 1000, or every output channel of virtual network `0` towards the neighbour is active with nothing
on its way. A router whose number is not a multiple of the common divisor is never in its turn in such
a cycle. -/
theorem bailOut_ok_iff (h : Reachable P s) (hr : r < P.numRouters) (h0 : P.noIsSwap = 0)
    (hat : Attempts P r s t) (rnd : Nat → Nat) :
    (s.now % 1000 = 0 → Nat.gcd 1000 (P.whenToSwap * P.numRouters) ∣ r) ∧
    ∃ p v f fs d, BoundPointed P r t p v f fs d ∧
      ((∃ t', checkBailOut P r t.initiated = .ok t') ↔ s.now % 1000 ≠ 0 ∨
        ∀ w < P.vcsPerVnet, (t.outVc (.int r f.outportDir) w).state = .active ∧
          NothingUnderWay P t (.int r f.outportDir) w) ∧
      ∀ e, checkBailOut P r t.initiated = .error e →
        e = .bailOutFacing ∧ exec P (.wake (.router r) rnd) s = .error .bailOutFacing := by
  obtain ⟨-, hturn, -, -, p, v, f, fs, d, hpt⟩ := hat.turn hr
  have hnow := hat.now_eq hr
  refine ⟨fun hmul => ?_, p, v, f, fs, d, hpt, ?_⟩
  · have hturn : t.now % (P.whenToSwap * P.numRouters) = r := of_decide_eq_true hturn
    rw [← hturn, hnow, Nat.dvd_mod_iff (Nat.gcd_dvd_right ..)]
    exact (Nat.gcd_dvd_left ..).trans (Nat.dvd_of_mod_eq_zero hmul)
  have hlink : Link.int r f.outportDir ∈ P.links :=
    mem_links.mpr (.inr (.inr ⟨r, hr, f.outportDir, d, hpt.nbr, rfl⟩))
  have hvcs : P.vcsPerVnet ≤ P.numVcs :=
    Nat.le_mul_of_pos_left _ (Nat.pos_of_mul_pos_right (Nat.zero_lt_of_lt hpt.ptr.vc_lt))
  have hfull : (∀ w < P.vcsPerVnet, t.buf (.inputVc (.int r f.outportDir) w) ≠ []) ↔
      ∀ w < P.vcsPerVnet, (t.outVc (.int r f.outportDir) w).state = .active ∧
        NothingUnderWay P t (.int r f.outportDir) w :=
    forall₂_congr fun w hw => (hat.sendersOk h hr).occupied_iff hlink (hw.trans_le hvcs)
  obtain ⟨hok, herr⟩ := bailOut_facing hr hpt
  have hwake : ∀ e, checkBailOut P r t.initiated = .error e →
      exec P (.wake (.router r) rnd) s = .error e := by
    intro e he
    rw [hat.wakeup h hr, trySwap_checkBailOut rnd he]
    rfl
  rw [← hnow, ← hfull, ← hok]
  by_cases hmul : t.now % 1000 = 0
  · rw [checkBailOut_eq h0 hmul] at hwake ⊢
    cases hb : bailOut P r t.initiated with
    | ok t' => exact ⟨iff_of_true ⟨_, rfl⟩ (.inr ⟨t', rfl⟩), fun e he => nomatch he⟩
    | error e =>
      obtain rfl := herr e hb
      rw [hb] at hwake
      refine ⟨iff_of_false (fun ⟨t', ht'⟩ => nomatch ht') ?_, fun e he => ?_⟩
      · rintro (hne | ⟨t', ht'⟩)
        · exact hne hmul
        · cases ht'
      · obtain rfl := Except.error.inj he
        exact ⟨rfl, hwake _ rfl⟩
  · rw [checkBailOut_of_ne h0 hmul]
    exact ⟨iff_of_true ⟨_, rfl⟩ (.inl hmul), fun e he => nomatch he⟩

/-- A row of three routers with one channel and swaps in every cycle. -/
def Params.trio : Params :=
  { Params.mesh 1 3 Params.one_lt_row_three with
    vcsPerVnet := 1
    vcs_pos := Nat.one_pos
    routerLatency := fun _ => 3
    routingAlgorithm := .xy
    interswap := true
    whenToSwap := 1
    when_pos := fun _ => Nat.one_pos
    injSingleVnet := 1 }

theorem reachable_idle (P : Params) (n : Nat) : Reachable P { Net.init P with now := n } := by
  induction n with
  | zero => exact .init
  | succ n ih => exact .step .tick ih (fun _ _ h => nomatch h) rfl

/-- The row after `n` steps, idle up to cycle `986`, of messages to node `2` from the nodes given.
-/
def trioRun (sends : List (Nat × Nat)) (n : Nat) : Option Net :=
  let m : Message := ⟨0, 0, 0, 0, .singleton 2⟩
  (run .trio (sends.map fun x => .protocol x.1 (.send 0 m x.2 0))
    { Net.init .trio with now := 986 }).bind (simulate .trio n)

theorem trioRun_reachable {sends : List (Nat × Nat)} {n : Nat} {s : Net}
    (h : trioRun sends n = some s) : Reachable .trio s :=
  reachable_of_run_simulate _ (reachable_idle _ _) h

/-- What the middle router meets: whether its pointer is valid in cycle `1000`, what
`outportNotLocal` answers, and the assertion of `bail_out` that fails. -/
def trioView (s : Net) : Bool × Option Bool × Option Fault :=
  (decide (s.now = 1000 ∧ s.now ∈ s.events (.router 1) ∧ (s.router 1).swapPtr.valid = true),
    (outportNotLocal .trio 1 (s.fire (.router 1))).toOption.map fun x => x.1,
    error? (bailOut .trio 1 (s.fire (.router 1)).initiated))

theorem attempts_trio {x : Option Fault} (h : trioView s = (true, some true, x)) :
    s.now % 1000 = 0 ∧ s.now ∈ s.events (.router 1) ∧ Attempts .trio 1 s (s.fire (.router 1)) ∧
      error? (bailOut .trio 1 (s.fire (.router 1)).initiated) = x := by
  simp only [trioView, Prod.mk.injEq] at h
  obtain ⟨hstate, hout, hbail⟩ := h
  obtain ⟨hnow, hev, hv⟩ := of_decide_eq_true hstate
  refine ⟨by rw [hnow], hev, attempts_of_valid rfl (by decide) hv ?_ hout, hbail⟩
  show decide (s.now % (1 * 3) = 1) = true
  rw [hnow]
  rfl

/-- A flit of node `1` is in the facing channel when the middle router bails out: the output channel
towards it is active, and nothing is on its way. -/
theorem bailOut_ok_iff_trio : ∃ s dirn t', trioRun [(0, 6), (1, 7)] 30 = some s ∧
    s.now % 1000 = 0 ∧ checkBailOut .trio 1 (s.fire (.router 1)).initiated = .ok t' ∧
    (s.outVc (.int 1 dirn) 0).state = .active ∧
      NothingUnderWay .trio (s.fire (.router 1)) (.int 1 dirn) 0 := by
  have hrun : (trioRun [(0, 6), (1, 7)] 30).map trioView = some (true, some true, none) := by
    decide +kernel
  obtain ⟨s, hs, hview⟩ := Option.map_eq_some_iff.mp hrun
  obtain ⟨hnow, -, hat, hbail⟩ := attempts_trio hview
  obtain ⟨-, p, v, f, fs, d, -, hiff, -⟩ := bailOut_ok_iff (trioRun_reachable hs) (by decide)
    (by decide) hat fun _ => 0
  cases hres : bailOut .trio 1 (s.fire (.router 1)).initiated with
  | ok t' =>
    have hcheck := checkBailOut_eq (P := .trio) (r := 1) (t := s.fire (.router 1)) rfl hnow
    rw [hres] at hcheck
    have hfull := (hiff.mp ⟨_, hcheck⟩).resolve_left fun hne => hne hnow
    exact ⟨s, f.outportDir, _, hs, hnow, hcheck, hfull 0 (by decide)⟩
  | error e =>
    rw [hres] at hbail
    cases hbail

/-- With one flit on its way through the row, the facing channel is empty in cycle `1000`. -/
theorem bailOut_facing_empty : ∃ s, Reachable .trio s ∧ Enabled .trio s (.wake (.router 1) fun _ => 0) ∧
    Params.trio.noIsSwap = 0 ∧ s.now % 1000 = 0 ∧ Attempts .trio 1 s (s.fire (.router 1)) ∧
    bailOut .trio 1 (s.fire (.router 1)).initiated = .error .bailOutFacing ∧
    exec .trio (.wake (.router 1) fun _ => 0) s = .error .bailOutFacing := by
  have hrun : (trioRun [(0, 6)] 22).map trioView = some (true, some true, some .bailOutFacing) := by
    decide +kernel
  obtain ⟨s, hs, hview⟩ := Option.map_eq_some_iff.mp hrun
  obtain ⟨hnow, hev, hat, hbail⟩ := attempts_trio hview
  have hreach := trioRun_reachable hs
  have herr := eq_error_of_error? hbail
  refine ⟨s, hreach, ⟨by decide, hev⟩, rfl, hnow, hat, herr, ?_⟩
  have hcheck := checkBailOut_eq (P := .trio) (r := 1) (t := s.fire (.router 1)) rfl hnow
  rw [herr] at hcheck
  rw [hat.wakeup hreach (by decide), trySwap_checkBailOut _ hcheck]
  rfl

end NocSwap
