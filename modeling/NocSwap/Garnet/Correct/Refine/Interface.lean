import NocSwap.Garnet.Correct.Refine.Links

/-!
# The network interface as moves
-/

namespace NocSwap

open Function List MessageBuffer Moves

variable {P : Params} {s s' : Net} {n : Nat}

theorem FaultAt.of_buffer {e : Fault} (h : e ∈ MessageBuffer.faults) : FaultAt P s e :=
  .other (by revert h; revert e; decide)

/-! ### Injection -/

/-- The channel found is idle, and belongs to `vnet` if the position of the allocator stays in
range. -/
theorem findIdleVc_outcome (vnet itr : Nat) : ∀ delta, Outcome (findIdleVc P s n vnet itr delta)
      (fun res => (delta < P.vcsPerVnet → res.2 < P.vcsPerVnet) ∧ ∀ vc, res.1 = some vc →
        vc < P.numVcs ∧ (s.outVc (.extIn n) vc).isInState .idle s.now = true ∧
          (res.2 < P.vcsPerVnet → vc / P.vcsPerVnet = vnet))
      (fun e => e = .vcOutOfRange) := by
  induction itr with
  | zero => exact fun _ => ⟨id, fun _ h => nomatch h⟩
  | succ itr ih =>
    intro delta
    have hpos := P.vcs_pos
    set next := if delta + 1 = P.vcsPerVnet then 0 else delta + 1 with hnext
    have hlt : delta < P.vcsPerVnet ↔ next < P.vcsPerVnet := by
      rw [hnext]
      split_ifs <;> omega
    simp only [findIdleVc, outcome_do, outcome_ite]
    refine fun hvc => ⟨fun hidle => ⟨hlt.mp, ?_⟩, fun _ => ?_⟩
    · rintro vc ⟨⟩
      refine ⟨hvc, hidle, fun h => ?_⟩
      rw [Nat.mul_comm, Nat.mul_add_div hpos, Nat.div_eq_of_lt (hlt.mpr h), Nat.add_zero]
    · exact (ih next).imp fun res h => ⟨fun hd => h.1 (hlt.mp hd), h.2⟩

theorem calculateVC_outcome (vnet : Nat) (s : Net) : Outcome (calculateVC P n vnet s)
      (fun res => (∃ x, res.2 = s.setNi n x ∧ NiKeeps P s.now (s.ni n) x ∧ x.inNode = (s.ni n).inNode) ∧
        ∀ vc, res.1 = some vc → vc < P.numVcs ∧
          (s.outVc (.extIn n) vc).isInState .idle s.now = true ∧
          ((∀ v, (res.2.ni n).vcAllocator v < P.vcsPerVnet) → vc / P.vcsPerVnet = vnet))
      (FaultAt P s) := by
  simp only [calculateVC, outcome_bind]
  refine (findIdleVc_outcome vnet _ _).mono (fun res hres => ?_) (fun e he => he ▸ .other (by decide))
  obtain ⟨vc, delta⟩ := res
  have halloc : (∀ v, (s.ni n).vcAllocator v < P.vcsPerVnet) →
      ∀ v, update (s.ni n).vcAllocator vnet delta v < P.vcsPerVnet := by
    intro h v
    rcases eq_or_ne v vnet with rfl | hne
    · rw [update_self]
      exact hres.1 (h v)
    · rw [update_of_ne hne]
      exact h v
  cases vc with
  | some vc =>
    refine ⟨⟨_, rfl, ⟨halloc, rfl, rfl, rfl, fun _ => .rfl'⟩, rfl⟩, ?_⟩
    rintro _ ⟨⟩
    obtain ⟨h1, h2, h3⟩ := hres.2 vc rfl
    refine ⟨h1, h2, fun h => h3 ?_⟩
    simpa using h vnet
  | none =>
    simp only [outcome_do]
    refine ⟨fun _ => ⟨⟨_, rfl, ⟨halloc, rfl, rfl, rfl, fun _ => .rfl'⟩, rfl⟩, ?_⟩,
      fun _ => .other (by decide)⟩
    rintro _ ⟨⟩

theorem Move.setInNode (s : Net) (n vnet : Nat) (b : MessageBuffer) :
    Move P s (.ni n) (s.setInNode n vnet b) :=
  .niRegs n _ ⟨id, rfl, rfl, rfl, fun _ => .rfl'⟩

theorem Move.setOutNode (s : Net) (n vnet : Nat) {b : MessageBuffer}
    (h : ((s.ni n).outNode vnet).Keeps s.now b) : Move P s (.ni n) (s.setOutNode n vnet b) := by
  refine .niRegs n _ ⟨id, rfl, rfl, rfl, fun v => ?_⟩
  rcases eq_or_ne v vnet with rfl | hne
  · simpa using h
  · simpa [hne] using .rfl'

section Injection

variable {vnet : Nat} (hn : n < P.numNodes) (hvnet : vnet < P.virtualNetworks)
include hn hvnet

theorem flitisizeDest_runs {multi : Bool} {dest : Nat}
    (hone : multi = false → ∀ m, ((s.ni n).inNode vnet).prioHeap.head? = some m →
      m.destination.nodes = [dest]) :
    Outcome (flitisizeDest P n vnet multi dest s) (fun res => Moves P (.ni n) s res.2)
      (Fails P (.ni n) s) := by
  simp only [flitisizeDest, outcome_do]
  refine (calculateVC_outcome _ s).mono (fun res hres => ?_) (fun _ he => .of_fault he)
  obtain ⟨⟨x, hx, hkeep, hin⟩, hvc⟩ := hres
  obtain ⟨vc, t⟩ := res
  simp only at hx hvc
  subst hx
  have hmove : Moves P (.ni n) s (s.setNi n x) := .one (.niRegs n x hkeep)
  refine ⟨fun hinj => ?_, fun _ => .of_fault (.other (by decide))⟩
  cases vc with
  | none => exact hmove
  | some vc =>
    obtain ⟨hlt, hidle, hvnet'⟩ := hvc vc rfl
    simp only [outcome_do]
    refine ⟨fun m hm => ⟨fun hdest => ?_, fun _ => .of_fault (.other (by decide))⟩,
      fun _ => .of_fault (.other (by decide))⟩
    cases multi with
    | true =>
      refine (hmove.then (.setInNode _ n vnet _)).then
        (.create ⟨hn, hvnet, hlt, ?_, hinj, hidle, hdest, rfl⟩)
      intro h
      exact hvnet' (by simpa [Net.setInNode] using h)
    | false =>
      refine hmove.then (.create ⟨hn, hvnet, hlt, hvnet', hinj, hidle, hdest, hone rfl m ?_⟩)
      simpa [hin] using hm

theorem flitisizeLoop_runs {multi : Bool} (dests : List Nat) :
    ∀ s : Net, (multi = false → ∀ dest ∈ dests, dests = [dest] ∧
      ∀ m, ((s.ni n).inNode vnet).prioHeap.head? = some m → m.destination.nodes = [dest]) →
    Outcome (flitisizeLoop P n vnet multi dests s) (fun res => Moves P (.ni n) s res.2)
      (Fails P (.ni n) s) := by
  induction dests with
  | nil => exact fun s _ => rfl'
  | cons dest rest ih =>
    intro s hone
    simp only [flitisizeLoop, outcome_bind]
    refine (flitisizeDest_runs hn hvnet fun h => (hone h dest (mem_cons_self ..)).2).imp
      fun res hm => ?_
    obtain ⟨done, t⟩ := res
    cases done with
    | false => exact hm
    | true =>
      -- a message with a single destination leaves no further pass
      have hrest : multi = false → rest = [] := fun h =>
        (List.cons.inj (hone h dest (mem_cons_self ..)).1).2
      exact (ih t fun h d hd => by simp [hrest h] at hd).mono (fun _ h => hm.trans h)
        (fun _ he => .after hm he)

theorem injectVnet_runs (s : Net) : Runs P (.ni n) s (injectVnet P n vnet s) := by
  unfold injectVnet
  split_ifs
  case neg => exact rfl'
  simp only [Runs, outcome_do, flitisizeMessage]
  refine ⟨fun m hm => ?_, fun _ => .of_fault (.other (by decide))⟩
  refine (flitisizeLoop_runs hn hvnet _ s fun hmulti dest hd => ?_).imp fun res h => ?_
  · have hlen : ¬ 1 < m.destination.getAllDest.length := by simpa using hmulti
    obtain ⟨d, hd'⟩ := length_eq_one_iff.mp
      (by have := length_pos_of_mem hd; omega : m.destination.getAllDest.length = 1)
    rw [hd', mem_singleton] at hd
    subst hd
    refine ⟨hd', fun m' hm' => ?_⟩
    rw [hm] at hm'
    cases hm'
    exact hd'
  · obtain ⟨done, t⟩ := res
    cases done with
    | false => exact h
    | true =>
      simp only [if_true, outcome_do]
      exact (dequeue_outcome _ _ _).mono (fun b _ => h.then (.setInNode ..))
        (fun _ he => .after h (.of_fault (.of_buffer he)))

end Injection

theorem isCandidateVc_of_findCandidateVc {vc : Nat} (itr : Nat) :
    ∀ start, findCandidateVc P s n itr start = some vc → isCandidateVc P s n vc = true := by
  induction itr with
  | zero => exact fun _ h => nomatch h
  | succ itr ih =>
    intro start h
    simp only [findCandidateVc] at h
    split_ifs at h with h1 h2 h2
    · exact Option.some.inj h ▸ h2
    · exact ih _ h
    · exact Option.some.inj h ▸ h2
    · exact ih _ h

theorem sendFlit_runs {vc : Nat} (hn : n < P.numNodes) (hc : isCandidateVc P s n vc = true) :
    Runs P (.ni n) s (sendFlit P n vc s) := by
  have hcredit : 0 < (s.outVc (.extIn n) vc).creditCount := by
    simp only [isCandidateVc, Bool.and_eq_true] at hc
    exact of_decide_eq_true hc.1.2
  simp only [Runs, sendFlit, OutVcState.decrementCredit, outcome_do, Net.setOutVc_buf]
  refine ⟨fun hvc => ⟨fun _ => ?_, fun h => absurd (by omega) h⟩,
    fun _ => .of_fault (.other (by decide))⟩
  cases hb : s.buf (.niOutVc n vc) with
  | nil => exact .of_fault (.other (by decide))
  | cons f fs =>
    have hmove := Move.send (P := P) (s := s.schedule (.link (.extIn n)) (s.now + 1)) hn hvc hb hc
      (s.mem_scheduled _ (Nat.le_succ _))
    refine .sched_first (.link (.extIn n)) (s.now + 1) ?_
    convert hmove using 1
    simp [Net.insert, Net.setBuf, Net.setOutVc, Net.setNi, Net.schedule]
    rfl

theorem scheduleOutputLink_runs (hn : n < P.numNodes) (s : Net) :
    Runs P (.ni n) s (scheduleOutputLink P n s) := by
  have hmove {k : Nat} : Moves P (.ni n) s (s.setNi n { s.ni n with vcRoundRobin := k }) :=
    .one (.niRegs n _ ⟨id, rfl, rfl, rfl, fun _ => .rfl'⟩)
  simp only [scheduleOutputLink]
  split
  case h_1 vc hvc => exact (sendFlit_runs hn (isCandidateVc_of_findCandidateVc _ _ hvc)).after hmove
  case h_2 => exact hmove

theorem checkReschedule_moves (s : Net) : Moves P (.ni n) s (checkReschedule P n s) := by
  unfold checkReschedule
  split_ifs
  · exact .one (.sched ..)
  · exact .rfl'

theorem deliver_outcome (f : Flit) (rnd : Nat) (s : Net) : Outcome (deliver P n f rnd s)
      (fun s' => ∃ b x, ((s.ni n).outNode f.vnet).Keeps s.now b ∧
        s' = { (s.setOutNode n f.vnet b).setStats x with
          credits := update s.credits (.queue (.extOut n))
            (insertCredit ⟨f.vc, true, s.now⟩ (s.credits (.queue (.extOut n))))
          consumed := (n, f) :: s.consumed })
      (· ∈ MessageBuffer.faults) := by
  simp only [deliver, outcome_do]
  exact (enqueue_outcome ..).imp fun res h => ⟨res.1, _, h.1, rfl⟩

section

variable (hn : n < P.numNodes) (rnd : Nat)
include hn

theorem checkStallQueue_runs (l : List Flit) : ∀ done, s.buf (.stallQueue n) = done.reverse ++ l →
      Outcome (checkStallQueue P n rnd done l s) (fun res => Moves P (.ni n) s res.2)
        (Fails P (.ni n) s) := by
  induction l with
  | nil => exact fun _ _ => rfl'
  | cons f rest ih =>
    intro done hb
    simp only [checkStallQueue, outcome_do, outcome_ite]
    refine ⟨fun _ => ⟨fun _ => ?_, fun _ => ?_⟩, fun _ => .of_fault (.other (by decide))⟩
    · refine (deliver_outcome f rnd s).mono ?_ (fun _ he => .of_fault (.of_buffer he))
      rintro _ ⟨b, x, hcb, rfl⟩
      have hpre : Moves P (.ni n) s ((s.setOutNode n f.vnet b).setStats x) :=
        (one (.setOutNode s n f.vnet hcb)).then (.stats ..)
      have hmove := Move.unstall (P := P) (s := (s.setOutNode n f.vnet b).setStats x) hn hb
      refine hpre.then ?_
      convert hmove using 1
      by_cases hcount : (s.ni n).stallCount f.vnet - 1 = 0 <;>
        simp [hcount, Net.setOutNode, Net.setNi, Net.setStats, Net.setBuf]
    · exact ih (f :: done) (by rw [hb, reverse_cons, append_assoc, singleton_append])

theorem ejectFlit_runs {f : Flit} {fs : List Flit}
    (enqueued : Bool) (hb : s.buf (.linkBuffer (.extOut n)) = f :: fs) (ht : f.time ≤ s.now) :
    Runs P (.ni n) s
      (ejectFlit P n rnd enqueued f (s.setBuf (.linkBuffer (.extOut n)) fs)) := by
  simp only [Runs, ejectFlit, outcome_ite, outcome_do]
  refine ⟨fun htail => ⟨fun _ => ⟨fun _ => ?_, fun _ => ?_⟩, fun _ => .of_fault (.other (by decide))⟩,
    fun htail => ?_⟩
  · refine (deliver_outcome ..).mono ?_ (fun _ he => .of_fault (.of_buffer he))
    rintro _ ⟨b, x, hcb, rfl⟩
    have hpre : Moves P (.ni n) s ((s.setOutNode n f.vnet b).setStats x) :=
      (one (.setOutNode s n f.vnet hcb)).then (.stats ..)
    have hmove := Move.eject (P := P) (s := (s.setOutNode n f.vnet b).setStats x) hn hb ht
    refine hpre.then ?_
    convert hmove using 1
    have : f.isTail = true := htail
    simp [Net.setOutNode, Net.setNi, Net.setStats, Net.setBuf, this]
  · have hmove := Move.stall (P := P) hn hb ht htail
    convert one hmove using 1
    simp [Net.setOutNode, Net.setNi, Net.setBuf]
  · let x : Stats := { s.stats with totalHops := s.stats.totalHops + f.route.hopsTraversed }
    have hmove := Move.eject (P := P) (s := s.setStats x) hn hb ht
    refine (one (.stats _ x)).then ?_
    convert hmove using 1
    have : f.isTail = false := Bool.eq_false_of_not_eq_true htail
    simp [Net.insertCredit, Net.setCredits, Net.setStats, Net.setBuf, this, x]

theorem niArrival_runs (enqueued : Bool) (s : Net) :
    Runs P (.ni n) s (niArrival P n rnd enqueued s) := by
  unfold niArrival
  cases hb : s.buf (.linkBuffer (.extOut n)) with
  | nil => exact rfl'
  | cons f fs =>
    by_cases ht : f.time ≤ s.now
    · simp only [ht, if_true]
      exact ejectFlit_runs hn rnd enqueued hb ht
    · simp only [ht, if_false]
      exact rfl'

end

theorem niWakeup_runs (hn : n < P.numNodes) (rnd : Nat → Nat) (s : Net) :
    Runs P (.ni n) s (niWakeup P n rnd s) := by
  have hlink : Link.extIn n ∈ P.links := mem_links.mpr (.inl ⟨n, hn, rfl⟩)
  refine (Runs.foldlM _ (fun vnet hv t => injectVnet_runs hn (mem_range.mp hv) t) s).bind
    fun s1 _ => (scheduleOutputLink_runs hn s1).bind fun s2 _ => ?_
  refine Runs.after (checkReschedule_moves s2) ?_
  rw [Runs, outcome_bind]
  refine (checkStallQueue_runs hn (rnd 0) _ [] rfl).imp fun res h3 => ?_
  refine Runs.after h3 ((niArrival_runs hn (rnd 1) res.1 res.2).bind fun s4 _ => ?_)
  refine (creditArrival_runs hlink rfl s4).bind fun s5 _ => ?_
  show Moves P (.ni n) s5 _
  split_ifs
  · exact .rfl'
  · exact .one (.sched ..)

theorem dequeueCallback_moves (b : MessageBuffer) (s : Net) :
    Moves P (.ni n) s (dequeueCallback n b s) := by
  unfold dequeueCallback
  split_ifs
  · exact .one (.sched ..)
  · exact .rfl'

theorem protocolStep_runs (op : ProtocolOp) (s : Net) :
    Runs P (.ni n) s (protocolStep P n op s) := by
  have hfail {e : Fault} (he : e ∈ faults) : Fails P (.ni n) s e :=
    .of_fault (.of_buffer he)
  cases op with
  | send vnet m delta rnd =>
    simp only [Runs, protocolStep, outcome_do]
    exact (enqueue_outcome ..).mono
      (fun b _ => (one (.setInNode ..)).then (.sched ..)) (fun _ => hfail)
  | receive vnet =>
    simp only [Runs, protocolStep, outcome_do]
    exact (dequeue_outcome ..).mono
      (fun b hb => (one (.setOutNode _ _ _ hb.1)).trans (dequeueCallback_moves ..))
      (fun _ => hfail)
  | recycle vnet latency =>
    simp only [Runs, protocolStep, outcome_do]
    exact (recycle_rearranges ..).mono
      (fun b hb => .one (.setOutNode _ _ _ hb.toKeeps)) (fun _ => hfail)
  | delayHead vnet delta rnd =>
    simp only [Runs, protocolStep, outcome_do]
    exact (delayHead_rearranges ..).mono
      (fun b hb => .one (.setOutNode _ _ _ hb.toKeeps)) (fun _ => hfail)
  | stall vnet addr =>
    simp only [Runs, protocolStep, outcome_do]
    exact (stallMessage_rearranges ..).mono
      (fun b hb => (one (.setOutNode _ _ _ hb.toKeeps)).trans (dequeueCallback_moves ..))
      (fun _ => hfail)
  | reanalyze vnet addr =>
    simp only [Runs, protocolStep, outcome_do]
    exact (reanalyzeMessages_rearranges ..).mono
      (fun b hb => .one (.setOutNode _ _ _ hb.toKeeps)) (fun _ => hfail)
  | reanalyzeAll vnet =>
    simp only [Runs, protocolStep, outcome_do]
    exact (reanalyzeAllMessages_rearranges ..).mono
      (fun b hb => .one (.setOutNode _ _ _ hb.toKeeps)) (fun _ => hfail)

end NocSwap
