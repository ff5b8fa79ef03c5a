import NocSwap.Garnet.Run

/-!
# What changes the record of swaps and the round-robin pointers
-/

namespace NocSwap

open Function Net

variable {P : Params} {s s' : Net}

structure Counters where
  initiated : Nat
  swaps : Nat
  failed : Nat
  downstreamEmpty : Nat
  downstreamLocalOutport : Nat
  deriving DecidableEq

def Stats.counters (x : Stats) : Counters :=
  ⟨x.totalInitiatedSwaps, x.totalSwaps, x.totalFailedSwaps, x.totalFailedDownstreamEmpty,
    x.totalFailedDownstreamLocalOutport⟩

def Net.record (s : Net) : Counters × List (Nat × Flit × Flit) := (s.stats.counters, s.swapLog)

def Net.roundRobin (s : Net) (r : Nat) : (Nat → Nat) × (Nat → Nat) :=
  ((s.router r).roundRobinInvc, (s.router r).roundRobinInport)

def Net.aside (s : Net) : (Counters × List (Nat × Flit × Flit)) × (Nat → (Nat → Nat) × (Nat → Nat)) :=
  (s.record, s.roundRobin)

theorem roundRobin_of_update {r : Nat} {x : RouterRegs} (h : s'.router = update s.router r x)
    (hx : (x.roundRobinInvc, x.roundRobinInport) = s.roundRobin r) :
    s'.roundRobin = s.roundRobin := by
  funext r'
  unfold roundRobin at hx ⊢
  rw [h]
  rcases eq_or_ne r' r with rfl | hne
  · rwa [update_self]
  · rw [update_of_ne hne]

theorem aside_of_update {r : Nat} {x : RouterRegs} (hrec : s'.record = s.record)
    (h : s'.router = update s.router r x)
    (hx : (x.roundRobinInvc, x.roundRobinInport) = s.roundRobin r) : s'.aside = s.aside :=
  congrArg₂ Prod.mk hrec (roundRobin_of_update h hx)

section Parts

variable {α : Type} {π : α → Net} {x : Except Fault α}

theorem Yields.record (h : Yields (fun a => (π a).aside) s.aside x) :
    Yields (fun a => (π a).record) s.record x :=
  ⟨fun a ha => congrArg Prod.fst (h.of_ok a ha)⟩

theorem Yields.roundRobin (h : Yields (fun a => (π a).aside) s.aside x) :
    Yields (fun a => (π a).roundRobin) s.roundRobin x :=
  ⟨fun a ha => congrArg Prod.snd (h.of_ok a ha)⟩

end Parts

theorem makeSwapPtrValid_aside (r : Nat) (dirn : PortDirection) (f : Flit) (s : Net) :
    Yields Net.aside s.aside (makeSwapPtrValid P r dirn f s) :=
  .ite (fun _ => .pure rfl) fun _ =>
    .ite (fun _ => .of_bind fun _ => .pure (aside_of_update rfl rfl rfl)) fun _ => .pure rfl

theorem movSwapPtr_aside (r : Nat) (s : Net) : Yields Net.aside s.aside (movSwapPtr P r s) :=
  .of_bind fun _ => .pure (aside_of_update rfl rfl rfl)

theorem validateSwapPtr_aside (r : Nat) (s : Net) :
    Yields Net.aside s.aside (validateSwapPtr P r s) := by
  refine .ite (fun _ => .pure rfl) fun _ => ?_
  split
  · exact makeSwapPtrValid_aside ..
  · exact .pure rfl

theorem receiveFlit_aside (r : Nat) (p : Port) (rnd : Nat) (f : Flit) (s : Net) :
    Yields Net.aside s.aside (receiveFlit P r p rnd f s) := by
  refine .of_bind fun _ => .of_bind fun _ => .of_bind fun _ => .of_bind fun _ => .of_bind fun _ =>
    .of_bind fun _ => (makeSwapPtrValid_aside ..).bind fun s₁ hs₁ => ?_
  exact .ite (fun _ => .pure hs₁) fun _ => .of_bind fun _ => .pure hs₁

theorem inputUnitWakeup_aside (r : Nat) (p : Port) (rnd : Nat) (s : Net) :
    Yields Net.aside s.aside (inputUnitWakeup P r p rnd s) := by
  unfold inputUnitWakeup
  split
  · exact .pure rfl
  · exact .ite (fun _ => (receiveFlit_aside ..).of_eq rfl) fun _ => .pure rfl

theorem creditArrival_aside (l : Link) (s : Net) :
    Yields Net.aside s.aside (creditArrival l s) := by
  unfold creditArrival
  split
  · exact .pure rfl
  · exact .ite (fun _ => .of_bind fun _ => .pure rfl) fun _ => .pure rfl

theorem arbitrateInports_record (r : Nat) (s : Net) :
    Yields (fun x => x.1.record) s.record (arbitrateInports P r s) := by
  refine Yields.foldlM (fun acc e _ hacc => .of_bind fun request => ?_) _ rfl
  split
  · exact .pure hacc
  · exact .pure hacc

theorem clearRoutedSwap_aside (r : Nat) (f : Flit) (s : Net) :
    Yields (fun x => x.2.aside) s.aside (clearRoutedSwap P r f s) :=
  .ite (fun _ => .of_bind fun _ => .of_bind fun _ => .pure (aside_of_update rfl rfl rfl))
    fun _ => .pure rfl

theorem releaseVc_aside (l : Link) (invc : Nat) (f : Flit) (s : Net) :
    Yields Net.aside s.aside (releaseVc l invc f s) :=
  .ite (fun _ => .of_bind fun _ => .pure rfl) fun _ => .pure rfl

theorem moveGrantedPtr_aside (r inport invc : Nat) (s : Net) :
    Yields Net.aside s.aside (moveGrantedPtr P r inport invc s) :=
  .ite (fun _ => movSwapPtr_aside ..) fun _ => .pure rfl

def Net.advanceInport (P : Params) (s : Net) (r outport : Nat) : Net :=
  s.setRouter r { s.router r with
    roundRobinInport := update (s.router r).roundRobinInport outport
      (rrNext (P.inports r).length ((s.router r).roundRobinInport outport)) }

theorem advanceInport_aside {r outport : Nat} (h : s'.aside = s.aside) :
    (s'.advanceInport P r outport).aside = (s.advanceInport P r outport).aside := by
  obtain ⟨hrec, hrr⟩ := Prod.mk.inj h
  refine congrArg₂ Prod.mk hrec (funext fun r' => ?_)
  obtain ⟨hinvc, hinport⟩ := Prod.mk.inj (congrFun hrr r')
  rcases eq_or_ne r' r with rfl | hne
  · simp [roundRobin, advanceInport, hinvc, hinport]
  · simp [roundRobin, advanceInport, hne, hinvc, hinport]

theorem grant_aside (r inport invc outport : Nat) (s : Net) :
    Yields Net.aside (s.advanceInport P r outport).aside (grant P r inport invc outport s) := by
  refine .of_bind fun _ => .of_bind fun _ => .of_bind fun _ => .of_bind fun _ => .of_bind fun _ =>
    .of_bind fun _ => (clearRoutedSwap_aside ..).bind fun x hx => ?_
  refine Yields.bind (π := aside) (b := s.aside) ?_ fun s₁ hs₁ => .of_bind fun _ => ?_
  · exact (moveGrantedPtr_aside ..).of_eq hx
  refine Yields.bind (π := aside) (b := s.aside) ?_ fun s₂ hs₂ => .pure (advanceInport_aside hs₂)
  exact (releaseVc_aside ..).of_eq hs₁

section

variable (r : Nat)

theorem arbitrateOutports_record (reqs : Requests) (s : Net) :
    Yields Net.record s.record (arbitrateOutports P r reqs s) := by
  refine Yields.foldlM (fun s₁ outport _ hs₁ => ?_) _ rfl
  split
  · exact ⟨fun s₂ hs₂ => (congrArg Prod.fst ((grant_aside ..).of_ok s₂ hs₂)).trans hs₁⟩
  · exact .pure hs₁

theorem checkForWakeup_aside (s : Net) : Yields Net.aside s.aside (checkForWakeup P r s) := by
  refine .of_bind fun again => .pure ?_
  split_ifs <;> rfl

theorem crossbarWakeup_aside (s : Net) : Yields Net.aside s.aside (crossbarWakeup P r s) := by
  refine Yields.foldlM (fun s₁ inport _ hs₁ => ?_) _ rfl
  unfold crossbarPort
  split
  · exact .pure hs₁
  · exact .ite (fun _ => .of_bind fun _ => .pure hs₁) fun _ => .pure hs₁

theorem pipelineWakeup_record (rnd : Nat → Nat) (s : Net) :
    Yields Net.record s.record (pipelineWakeup P r rnd s) := by
  refine Yields.bind
    (Yields.foldlM (fun _ _ _ hs => (inputUnitWakeup_aside ..).record.of_eq hs) s rfl) fun s₁ hs₁ => ?_
  refine Yields.bind
    (Yields.foldlM (fun _ _ _ hs => (creditArrival_aside ..).record.of_eq hs) s₁ hs₁) fun s₂ hs₂ => ?_
  refine Yields.bind (π := record) ?_ fun s₃ hs₃ => (crossbarWakeup_aside ..).record.of_eq hs₃
  refine ((arbitrateInports_record ..).of_eq hs₂).bind fun x hx => ?_
  refine ((arbitrateOutports_record ..).of_eq hx).bind fun s₃ hs₃ => ?_
  exact (checkForWakeup_aside ..).record.of_eq hs₃

theorem outportNotLocal_aside (s : Net) :
    Yields (fun x => x.2.aside) s.aside (outportNotLocal P r s) := by
  refine .of_bind fun pv => .ite (fun _ => .pure rfl) fun _ => ?_
  split
  · exact .pure rfl
  · exact .of_bind fun _ => .of_bind fun _ => .of_bind fun _ =>
      .ite (fun _ => .pure rfl) fun _ => .pure rfl

theorem checkBailOut_aside (s : Net) : Yields Net.aside s.aside (checkBailOut P r s) := by
  refine .ite (fun _ => .ite (fun _ => ?_) fun _ => .pure rfl) fun _ => .of_bind fun _ => .pure rfl
  refine Yields.bind (π := aside) (b := s.aside) ?_ fun s₁ hs₁ => .pure hs₁
  exact .of_bind fun _ => .of_bind fun _ => .of_bind fun _ => .of_bind fun _ => .of_bind fun _ =>
    .of_bind fun _ => .of_bind fun _ => .pure (Eq.trans (b := (s.setRouter r
      { s.router r with isSwap := false }).aside) (aside_of_update rfl rfl rfl)
      (aside_of_update rfl rfl rfl))

theorem markRouted_aside (f : Flit) (s : Net) : Yields Net.aside s.aside (markRouted P r f s) :=
  .ite (fun _ => .of_bind fun _ => .pure (aside_of_update rfl rfl rfl)) fun _ => .pure rfl

theorem doSwapEnqueue_aside (f : Flit) (dirn : PortDirection) (i : Option Int) (vcid : Int)
    (rnd : Nat) (s : Net) : Yields Net.aside s.aside (doSwapEnqueue P r f dirn i vcid rnd s) :=
  .of_bind fun _ => .of_bind fun _ => .of_bind fun _ => .of_bind fun _ => .of_bind fun _ => .pure rfl

theorem endRoutedSwap_aside (s : Net) : Yields Net.aside s.aside (endRoutedSwap P r s) :=
  .ite (fun _ => .of_bind fun _ => .pure (aside_of_update rfl rfl rfl)) fun _ => .pure rfl

end

def Net.logged (s : Net) : List (Nat × Flit × Flit) × (Nat → (Nat → Nat) × (Nat → Nat)) :=
  (s.swapLog, s.roundRobin)

theorem logged_of_aside (h : s'.aside = s.aside) : s'.logged = s.logged :=
  congrArg (fun x => (x.1.2, x.2)) h

theorem doSwap_logged (f : Flit) (u rnd : Nat) (s : Net) :
    Yields (fun x => x.2.logged) s.logged (doSwap P f u rnd s) := by
  refine .of_bind fun d => .of_bind fun _ => .ite (fun _ => .of_bind fun _ => ?_) fun _ => .pure rfl
  refine Yields.bind (π := fun x => x.2.logged) (b := s.logged) ?_ fun x hx => ?_
  · refine .of_bind fun _ => .ite (fun _ => .pure rfl) fun _ => .of_bind fun pv => ?_
    dsimp only
    split
    · exact .pure rfl
    · exact .ite (fun _ => .pure rfl) fun _ => .pure rfl
  dsimp only
  split
  · exact .pure hx
  refine Yields.bind (π := logged) (b := s.logged) ⟨fun s₁ hs₁ => ?_⟩ fun s₁ hs₁ => .pure hs₁
  rw [logged_of_aside ((doSwapEnqueue_aside ..).of_ok s₁ hs₁), ← hx]
  split_ifs
  · exact logged_of_aside (aside_of_update rfl rfl rfl)
  · rfl

theorem finishSwap_logged (r : Nat) (p : Port) (v : Nat) (f g : Flit) (rnd : Nat) (s : Net) :
    Yields (fun x => (x.swapLog.length, x.roundRobin)) (s.swapLog.length + 1, s.roundRobin)
      (finishSwap P r p v f g rnd s) := by
  refine Yields.bind (π := aside) (b := s.aside) ?_ fun s₁ hs₁ => ⟨fun s₂ hs₂ => ?_⟩
  · exact (doSwapEnqueue_aside ..).of_eq rfl
  obtain ⟨hlog, hrr⟩ := Prod.mk.inj (logged_of_aside hs₁)
  obtain ⟨hlog', hrr'⟩ :=
    Prod.mk.inj (logged_of_aside ((endRoutedSwap_aside (P := P) r _).of_ok s₂ hs₂))
  refine Prod.ext ?_ (hrr'.trans hrr)
  show s₂.swapLog.length = s.swapLog.length + 1
  rw [hlog', ← hlog]
  rfl

theorem failSwap_logged (r : Nat) (s : Net) : Yields Net.logged s.logged (failSwap P r s) :=
  .ite (fun _ => .of_bind fun _ => .pure (congrArg (Prod.mk s.swapLog) (roundRobin_of_update rfl rfl)))
    fun _ => .pure rfl

theorem trySwap_logged (r : Nat) (rnd : Nat → Nat) (h : trySwap P r rnd s = .ok s') :
    s'.swapLog.length ≤ s.swapLog.length + 1 ∧ s'.roundRobin = s.roundRobin := by
  obtain ⟨s₁, hs₁, h⟩ := bind_eq_ok.mp h
  obtain ⟨pv, -, h⟩ := bind_eq_ok.mp h
  obtain ⟨f, -, h⟩ := bind_eq_ok.mp h
  obtain ⟨s₂, hs₂, h⟩ := bind_eq_ok.mp h
  obtain ⟨⟨g, s₃⟩, hs₃, h⟩ := bind_eq_ok.mp h
  have hlogged₁ := logged_of_aside ((checkBailOut_aside ..).of_ok s₁ hs₁)
  have hlogged : s₂.logged = s.logged :=
    (logged_of_aside ((markRouted_aside ..).of_ok s₂ hs₂)).trans hlogged₁
  obtain ⟨hlog, hrr⟩ := Prod.mk.inj (((doSwap_logged ..).of_ok _ hs₃).trans hlogged)
  rw [← hlog, ← hrr]
  cases g with
  | some g =>
    obtain ⟨hlen, hrr'⟩ := Prod.mk.inj ((finishSwap_logged ..).of_ok s' h)
    exact ⟨hlen.le, hrr'⟩
  | none =>
    obtain ⟨hfail, hrr'⟩ := Prod.mk.inj ((failSwap_logged ..).of_ok s' h)
    rw [hfail]
    exact ⟨Nat.le_succ _, hrr'⟩

theorem swapWakeup_logged (r : Nat) (rnd : Nat → Nat) (h : swapWakeup P r rnd s = .ok s') :
    s'.swapLog.length ≤ s.swapLog.length + 1 ∧ s'.roundRobin = s.roundRobin := by
  obtain ⟨s₁, hs₁, h⟩ := bind_eq_ok.mp h
  obtain ⟨hlog₁, hrr₁⟩ :=
    Prod.mk.inj (logged_of_aside ((validateSwapPtr_aside ..).of_ok s₁ hs₁))
  rw [← hlog₁, ← hrr₁]
  split_ifs at h
  · obtain ⟨p, -, h⟩ := bind_eq_ok.mp h
    obtain ⟨-, -, h⟩ := bind_eq_ok.mp h
    obtain ⟨-, -, h⟩ := bind_eq_ok.mp h
    obtain ⟨⟨go, s₂⟩, hs₂, h⟩ := bind_eq_ok.mp h
    obtain ⟨hlog₂, hrr₂⟩ :=
      Prod.mk.inj (logged_of_aside ((outportNotLocal_aside ..).of_ok _ hs₂))
    rw [← hlog₂, ← hrr₂]
    cases go with
    | true =>
      obtain ⟨s₃, hs₃, h⟩ := bind_eq_ok.mp h
      obtain ⟨hlog₃, hrr₃⟩ := Prod.mk.inj (logged_of_aside ((movSwapPtr_aside ..).of_ok s' h))
      rw [hlog₃, hrr₃]
      exact trySwap_logged r rnd hs₃
    | false =>
      obtain ⟨hlog₃, hrr₃⟩ := Prod.mk.inj (logged_of_aside ((movSwapPtr_aside ..).of_ok s' h))
      rw [hlog₃]
      exact ⟨Nat.le_succ _, hrr₃⟩
  · obtain rfl := Except.ok.inj h
    exact ⟨Nat.le_succ _, rfl⟩

theorem linkWakeup_record (l : Link) (s : Net) : (linkWakeup P l s).record = s.record := by
  unfold linkWakeup
  split
  · rfl
  · split_ifs <;> rfl

theorem creditLinkWakeup_record (l : Link) (s : Net) :
    (creditLinkWakeup P l s).record = s.record := by
  unfold creditLinkWakeup
  split
  · rfl
  · split_ifs <;> rfl

theorem flitisizeDest_record (n vnet : Nat) (multi : Bool) (dest : Nat) (s : Net) :
    Yields (fun x => x.2.record) s.record (flitisizeDest P n vnet multi dest s) := by
  have hvc : Yields (fun x => x.2.record) s.record
      (calculateVC P n (if P.injSingleVnet = 0 then vnet else 0) s) := by
    refine .of_bind fun x => ?_
    dsimp only
    split
    · exact .pure rfl
    · exact .of_bind fun _ => .pure rfl
  refine hvc.bind fun x hx => .of_bind fun _ => ?_
  split
  · exact .pure hx
  · exact .of_bind fun _ => .of_bind fun _ => .ite (fun _ => .pure hx) fun _ => .pure hx

theorem flitisizeLoop_record (n vnet : Nat) (multi : Bool) (dests : List Nat) (s : Net) :
    Yields (fun x => x.2.record) s.record (flitisizeLoop P n vnet multi dests s) := by
  induction dests generalizing s with
  | nil => exact .pure rfl
  | cons dest dests ih =>
    refine (flitisizeDest_record ..).bind fun x hx => ?_
    exact .ite (fun _ => (ih x.2).of_eq hx) fun _ => .pure hx

theorem injectVnet_record (n vnet : Nat) (s : Net) :
    Yields Net.record s.record (injectVnet P n vnet s) := by
  refine .ite (fun _ => .of_bind fun m => ?_) fun _ => .pure rfl
  refine (flitisizeLoop_record ..).bind fun x hx => ?_
  exact .ite (fun _ => .of_bind fun _ => .pure hx) fun _ => .pure hx

theorem scheduleOutputLink_record (n : Nat) (s : Net) :
    Yields Net.record s.record (scheduleOutputLink P n s) := by
  unfold scheduleOutputLink
  dsimp only
  split
  · refine .of_bind fun _ => .of_bind fun _ => ?_
    dsimp only
    split
    · exact .error _
    · exact .pure rfl
  · exact .pure rfl

theorem checkReschedule_record (n : Nat) (s : Net) : (checkReschedule P n s).record = s.record := by
  unfold checkReschedule
  split_ifs <;> rfl

theorem deliver_record (n : Nat) (f : Flit) (rnd : Nat) (s : Net) :
    Yields Net.record s.record (deliver P n f rnd s) :=
  .of_bind fun _ => .pure rfl

theorem checkStallQueue_record (n rnd : Nat) (done stalled : List Flit) (s : Net) :
    Yields (fun x => x.2.record) s.record (checkStallQueue P n rnd done stalled s) := by
  induction stalled generalizing done with
  | nil => exact .pure rfl
  | cons f stalled ih =>
    refine .of_bind fun _ => .ite (fun _ => ?_) fun _ => ih _
    refine (deliver_record ..).bind fun s₁ hs₁ => .pure ?_
    dsimp only
    split_ifs <;> exact hs₁

theorem niArrival_record (n rnd : Nat) (enqueued : Bool) (s : Net) :
    Yields Net.record s.record (niArrival P n rnd enqueued s) := by
  unfold niArrival
  split
  · exact .pure rfl
  · refine .ite (fun _ => ?_) fun _ => .pure rfl
    refine .ite (fun _ => .of_bind fun _ => ?_) fun _ => .pure rfl
    exact .ite (fun _ => (deliver_record ..).of_eq rfl) fun _ => .pure rfl

theorem niWakeup_record (n : Nat) (rnd : Nat → Nat) (s : Net) :
    Yields Net.record s.record (niWakeup P n rnd s) := by
  refine Yields.bind (Yields.foldlM (fun _ _ _ hs => (injectVnet_record ..).of_eq hs) s rfl)
    fun s₁ hs₁ => ?_
  refine ((scheduleOutputLink_record ..).of_eq hs₁).bind fun s₂ hs₂ => ?_
  have hs₃ := (checkReschedule_record (P := P) n s₂).trans hs₂
  refine ((checkStallQueue_record ..).of_eq hs₃).bind fun x hx => ?_
  refine ((niArrival_record ..).of_eq hx).bind fun s₄ hs₄ => ?_
  refine ((creditArrival_aside ..).record.of_eq hs₄).bind fun s₅ hs₅ => .pure ?_
  split_ifs <;> exact hs₅

theorem dequeueCallback_record (n : Nat) (b : MessageBuffer) (s : Net) :
    (dequeueCallback n b s).record = s.record := by
  unfold dequeueCallback
  split_ifs <;> rfl

theorem protocolStep_record (n : Nat) (op : ProtocolOp) (s : Net) :
    Yields Net.record s.record (protocolStep P n op s) := by
  cases op with
  | receive | stall => exact .of_bind fun _ => .pure (dequeueCallback_record ..)
  | send | recycle | delayHead | reanalyze | reanalyzeAll => exact .of_bind fun _ => .pure rfl

end NocSwap
