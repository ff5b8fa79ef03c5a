import NocSwap.Garnet.Correct.Credits

/-!
# Wakeups of routers

A router that takes a flit from a link calls for the wakeup in which the flit is due, and a router
whose flit stays calls for the next cycle. A swap calls for nothing.
-/

namespace NocSwap

open Function List

variable {P : Params} {s s' : Net} {c : Consumer}

/-! ### Flits in input channels -/

theorem Move.swapLog_subset (hm : Move P s c s') : s.swapLog ⊆ s'.swapLog := by
  cases hm with
  | swap => exact subset_cons_self ..
  | _ => exact List.Subset.refl _

theorem inputVc_inductive {φ : Nat → Nat → FlitStage × Nat → Prop}
    (htick : ∀ now t st, φ now t st → φ (now + 1) t st)
    (harr : ∀ s r p f fs outport o, ArriveAt P s r p f fs outport o →
      φ s.now f.time (.sa, s.now + (P.routerLatency r - 1))) :
    Inductive P fun s => ∀ l v, ∀ f ∈ s.buf (.inputVc l v), φ s.now f.time f.stage where
  init _ _ _ h := nomatch h
  fire _ _ h := h
  tick s h l v f hf := htick s.now _ _ (h l v f hf)
  move s c s' _ h hm l v f hf := by
    have haft := hm.after hf
    rw [hm.now_eq]
    clear hf hm
    generalize hb : Buf.inputVc l v = b at haft
    cases haft with
    | kept hf =>
      subst hb
      exact h l v f hf
    | @cleared _ g hf =>
      subst hb
      exact (h l v g hf :)
    | arrived ha => exact (harr _ _ _ _ _ _ _ ha :)
    | handedBack hs => exact (h _ _ _ (hs.head' ▸ mem_cons_self ..) :)
    | swapped hs => exact (h _ _ _ (hs.head ▸ mem_cons_self ..) :)
    | _ => cases hb

theorem inputVc_waits (P : Params) : Inductive P fun s =>
    ∀ l v, ∀ f ∈ s.buf (.inputVc l v), f.time ≤ s.now ∧ f.stage.1 = .sa :=
  inputVc_inductive (φ := fun now t st => t ≤ now ∧ st.1 = .sa)
    (fun _ _ _ h => ⟨Nat.le_succ_of_le h.1, h.2⟩) fun _ _ _ _ _ _ _ ha => ⟨ha.ready, rfl⟩

/-- Swaps have exchanged flits due by the next cycle. -/
def SwapsReady (s : Net) : Prop :=
  ∀ e ∈ s.swapLog, e.2.1.stage.2 ≤ e.1 + 1 ∧ e.2.2.stage.2 ≤ e.1 + 1

theorem SwapsReady.before (h : SwapsReady s') (hlog : s.swapLog ⊆ s'.swapLog) : SwapsReady s :=
  fun e he => h e (hlog he)

/-- A flit due after the next cycle has its wakeup. -/
def LateOk (P : Params) (s : Net) (r : Nat) : Prop :=
  ∀ p ∈ P.inports r, ∀ v < P.numVcs, ∀ f ∈ s.buf (.inputVc p.link v),
    s.now + 1 < f.stage.2 → f.stage.2 ∈ s.events (.router r)

/-- If router `r` has a flit due by the next cycle, it has a wakeup by then. -/
def SoonOk (P : Params) (s : Net) (r : Nat) : Prop :=
  ∀ p ∈ P.inports r, ∀ v < P.numVcs, ∀ f ∈ s.buf (.inputVc p.link v), f.stage.2 ≤ s.now + 1 →
    s.now ∈ s.events (.router r) ∨ s.now + 1 ∈ s.events (.router r)

structure Awake (P : Params) (s : Net) (c : Consumer) : Prop where
  late : ∀ r < P.numRouters, LateOk P s r
  soon : ∀ r < P.numRouters, c ≠ .router r → SoonOk P s r

theorem Awake.keep (h : Awake P s c) (hm : Move P s c s')
    (hin : ∀ l v, ∀ f ∈ s'.buf (.inputVc l v), ∃ g ∈ s.buf (.inputVc l v), f.stage = g.stage) :
    Awake P s' c where
  late r hr p hp v hv f hf hlt := by
    obtain ⟨g, hg, hst⟩ := hin _ v f hf
    rw [hm.now_eq, hst] at hlt
    rw [hst]
    exact hm.events_mono (h.late r hr p hp v hv g hg hlt)
  soon r hr hc p hp v hv f hf hle := by
    obtain ⟨g, hg, hst⟩ := hin _ v f hf
    rw [hm.now_eq, hst] at hle
    rw [hm.now_eq]
    exact (h.soon r hr hc p hp v hv g hg hle).imp hm.events_mono hm.events_mono

theorem Awake.arrive {r outport : Nat} {p o : Port} {f : Flit} {fs : List Flit}
    (hsched : ∀ c t, t ∈ s.scheduled c → s.now < t → t ∈ s.events c)
    (h : Awake P s (.router r)) (ha : ArriveAt P s r p f fs outport o)
    (hbuf : s'.buf = update (update s.buf (.linkBuffer p.link) fs)
      (.inputVc p.link f.vc)
      (insertFlit (arrivedFlit P s r f outport o) (s.buf (.inputVc p.link f.vc))))
    (hnow : s'.now = s.now) (hev : s'.events = s.events) : Awake P s' (.router r) where
  late r' hr' q hq v hv g hg hlt := by
    rw [hnow] at hlt
    rw [hev]
    rw [hbuf] at hg
    generalize hb : Buf.inputVc q.link v = b at hg
    rcases mem_transfer ha.head hg with hg | ⟨he, rfl⟩
    · exact h.late r' hr' q hq v hv g (hb ▸ hg) hlt
    · obtain rfl : r' = r := by
        by_contra hne
        exact inport_link_ne ha.router_lt hr' hne ha.port hq
          (Buf.inputVc.inj (hb.trans he)).1.symm
      have hstage : s.now + 1 < s.now + (P.routerLatency r' - 1) := hlt
      obtain ⟨-, hmem⟩ := ha.scheduled (by omega)
      exact hsched _ _ hmem (by omega)
  soon r' hr' hc q hq v hv g hg hle := by
    rw [hnow] at hle ⊢
    rw [hev]
    rw [hbuf] at hg
    generalize hb : Buf.inputVc q.link v = b at hg
    rcases mem_transfer ha.head hg with hg | ⟨he, -⟩
    · exact h.soon r' hr' hc q hq v hv g (hb ▸ hg) hle
    · have hne : r' ≠ r := fun e => hc (e ▸ rfl)
      exact absurd (Buf.inputVc.inj (hb.trans he)).1.symm
        (inport_link_ne ha.router_lt hr' hne ha.port hq)

theorem Awake.swap {u d v : Nat} {p q : Port} {f g : Flit} {fs gs : List Flit} {fOut gOut : Nat}
    (h : Awake P s (.router u)) (hs : SwapAt P s u d v p q f g fs gs fOut gOut)
    (hf : f.stage.2 ≤ s.now + 1) (hg : g.stage.2 ≤ s.now + 1)
    (hbuf : s'.buf = update
      (update s.buf (.inputVc p.link v) (swappedFlit P u g gOut v :: fs))
      (.inputVc q.link v) (swappedFlit P d { f with routedSwap := true } fOut v :: gs))
    (hnow : s'.now = s.now) (hev : s'.events = s.events) : Awake P s' (.router u) := by
  obtain ⟨hlt, hne⟩ := downstream_spec hs.downstream_eq
  have hp := mem_of_getElem? hs.ptr.port
  have hq := mem_of_getElem? hs.facing
  refine ⟨fun r hr port hport v' hv' x hx hlate => ?_, fun r hr hc port hport v' hv' x hx hsoon => ?_⟩
  all_goals
    rw [hbuf] at hx
    generalize hb : Buf.inputVc port.link v' = b at hx
    rcases mem_exchange hs.head hs.head' hx with hx | ⟨he, rfl⟩ | ⟨he, rfl⟩
  · rw [hnow] at hlate
    rw [hev]
    exact h.late r hr port hport v' hv' x (hb ▸ hx) hlate
  · exact absurd (hnow ▸ hlate) (Nat.not_lt.mpr hg)
  · exact absurd (hnow ▸ hlate) (Nat.not_lt.mpr hf)
  · rw [hnow] at hsoon ⊢
    rw [hev]
    exact h.soon r hr hc port hport v' hv' x (hb ▸ hx) hsoon
  · have hru : r ≠ u := fun e => hc (e ▸ rfl)
    exact absurd (Buf.inputVc.inj (hb.trans he)).1.symm (inport_link_ne hs.router_lt hr hru hp hport)
  · obtain rfl : r = d := by
      by_contra hrd
      exact inport_link_ne hlt hr hrd hq hport (Buf.inputVc.inj (hb.trans he)).1.symm
    rw [hnow, hev]
    exact h.soon r hr hc q hq v hs.ptr.vc_lt g (hs.head' ▸ mem_cons_self ..) hg

theorem Awake.move (hsched : ∀ c t, t ∈ s.scheduled c → s.now < t → t ∈ s.events c)
    (h : Awake P s c) (hready : SwapsReady s') (hm : Move P s c s') : Awake P s' c := by
  have hsame : (∀ l v, s'.buf (.inputVc l v) = s.buf (.inputVc l v)) → Awake P s' c := fun hin =>
    h.keep hm fun l v f hf => ⟨f, hin l v ▸ hf, rfl⟩
  cases hm with
  | stats | sched | routerRegs | niRegs | creditLink | credit | ptr | clearSend =>
    exact hsame fun _ _ => rfl
  | link | cross | create | send | eject | stall | unstall => exact hsame fun _ _ => by simp
  | arrive ha => exact h.arrive hsched ha rfl rfl rfl
  | swap _ hs =>
    obtain ⟨hf, hg⟩ := hready _ (mem_cons_self ..)
    exact h.swap hs hf hg rfl rfl rfl
  | bailOut hi h0 hu hd =>
    refine h.keep (.bailOut hi h0 hu hd) fun l v f hf => ?_
    rcases mem_clearRouted hf with h1 | ⟨g, h1, rfl⟩ <;>
      rcases mem_clearRouted h1 with h2 | ⟨g', h2, rfl⟩ <;> exact ⟨_, h2, rfl⟩
  | grant hg =>
    refine h.keep (.grant hg) fun l v f hf => ?_
    generalize hb : Buf.inputVc l v = b at hf
    rcases mem_transfer hg.head hf with hf | ⟨he, -⟩
    · exact ⟨f, hf, rfl⟩
    · cases hb.trans he

def WakeContext (P : Params) (s : Net) : Prop :=
  ((∀ b, ∀ f ∈ s.buf b, f.type = .headTail) ∧ SendersOk P s) ∧
  (∀ c t, t ∈ s.scheduled c → s.now < t → t ∈ s.events c) ∧
  ∀ l v, ∀ f ∈ s.buf (.inputVc l v), f.time ≤ s.now ∧ f.stage.1 = .sa

theorem wakeContext (P : Params) : Inductive P (WakeContext P) :=
  ((sendersOk P).and (headTail P)).both ((events_of_scheduled P).both (inputVc_waits P))

theorem Awake.moves (hc : c ∈ P.consumers) (hctx : WakeContext P s) (hm : Moves P c s s')
    (h : SwapsReady s → Awake P s c) : SwapsReady s' → Awake P s' c := by
  induction hm with
  | refl => exact h
  | tail hms hm ih =>
    intro hready
    have hsched := ((wakeContext P).moves hc hctx hms).2.1
    exact (ih (hready.before hm.swapLog_subset)).move hsched hready hm

theorem soonOk_of_rechecked {r : Nat} (hr : r < P.numRouters) (hctx : WakeContext P s)
    (h : Rechecked P r s) : SoonOk P s r := by
  obtain ⟨⟨-, hsend⟩, hsched, hwait⟩ := hctx
  intro p hp v hv f hf hle
  obtain ⟨htime, hstage⟩ := hwait _ v f hf
  have hbuf : s.buf (.inputVc p.link v) = [f] := by
    obtain ⟨g, gs, hg⟩ := exists_cons_of_ne_nil (ne_nil_of_mem hf)
    have hnil := hsend.tail_eq_nil (inport_mem_links hr hp) hv hg
    rw [hg, hnil] at hf ⊢
    rw [mem_singleton.mp hf]
  have hmem := h p hp v hv f [] hbuf (Nat.le_succ_of_le htime) (decide_eq_true ⟨hstage.symm, hle⟩)
  exact .inr (hsched _ _ hmem (Nat.lt_succ_self _))

theorem Awake.fire (hlate : ∀ r < P.numRouters, LateOk P s r)
    (hsoon : ∀ r < P.numRouters, SoonOk P s r) (c : Consumer) : Awake P (s.fire c) c where
  late r hr p hp v hv f hf hlt := by
    have hold := hlate r hr p hp v hv f hf hlt
    rw [Net.fire_events]
    rcases eq_or_ne (Consumer.router r) c with rfl | hne
    · rw [update_self]
      exact (mem_erase_of_ne (by simp only [Net.fire_now] at hlt; omega)).mpr hold
    · rwa [update_of_ne hne]
  soon r hr hc p hp v hv f hf hle := by
    rw [Net.fire_events, update_of_ne hc.symm]
    exact hsoon r hr p hp v hv f hf hle

theorem awake_reachable (h : Reachable P s) (hready : SwapsReady s) :
    (∀ r < P.numRouters, LateOk P s r) ∧ ∀ r < P.numRouters, SoonOk P s r := by
  induction h with
  | init => exact ⟨fun _ _ _ _ _ _ _ h => (nomatch h), fun _ _ _ _ _ _ _ h => (nomatch h)⟩
  | @step s s' l hs hen hex ih =>
    have hctx := (wakeContext P).reachable hs
    have hctx' := (wakeContext P).step hen hctx hex
    have hstep := (exec_outcome hen).of_ok hex
    cases l with
    | protocol n op =>
      have hmoves : Moves P (.ni n) s s' := hstep
      have hawake := Awake.moves (mem_consumers.mpr hen.1) hctx hmoves
        (fun hr => ⟨(ih hr).1, fun r hr' _ => (ih hr).2 r hr'⟩) hready
      exact ⟨hawake.late, fun r hr => hawake.soon r hr nofun⟩
    | wake c rnd =>
      obtain ⟨hmoves, hrecheck⟩ := hstep
      have hawake := Awake.moves hen.1 ((wakeContext P).fire s c hctx) hmoves
        (fun hr => Awake.fire (ih hr).1 (ih hr).2 c) hready
      refine ⟨hawake.late, fun r hr => ?_⟩
      by_cases hc : c = .router r
      · exact soonOk_of_rechecked hr hctx' (hrecheck r hc)
      · exact hawake.soon r hr hc
    | tick =>
      have htick : s' = { s with now := s.now + 1 } := hstep
      subst htick
      obtain ⟨hlate, hsoon⟩ := ih hready
      have hnext : ∀ r < P.numRouters, ∀ p ∈ P.inports r, ∀ v < P.numVcs,
          ∀ f ∈ s.buf (.inputVc p.link v), f.stage.2 ≤ s.now + 1 →
            s.now + 1 ∈ s.events (.router r) := fun r hr p hp v hv f hf hle =>
        (hsoon r hr p hp v hv f hf hle).resolve_left (hen _ (mem_consumers.mpr hr))
      refine ⟨fun r hr p hp v hv f hf hlt => ?_, fun r hr p hp v hv f hf hle => ?_⟩
      · exact hlate r hr p hp v hv f hf (Nat.lt_of_succ_lt hlt)
      · by_cases hdue : f.stage.2 ≤ s.now + 1
        · exact .inl (hnext r hr p hp v hv f hf hdue)
        · have heq : f.stage.2 = s.now + 1 + 1 := le_antisymm hle (Nat.lt_of_not_le hdue)
          exact .inr (heq ▸ hlate r hr p hp v hv f hf (Nat.lt_of_not_le hdue))

theorem due_of_latency (hlat : ∀ r, P.routerLatency r ≤ 2) : Inductive P fun s =>
    ∀ l v, ∀ f ∈ s.buf (.inputVc l v), f.stage.2 ≤ s.now + 1 :=
  inputVc_inductive (φ := fun now _ st => st.2 ≤ now + 1) (fun _ _ _ h => Nat.le_succ_of_le h)
    fun s r _ _ _ _ _ _ => by
      have := hlat r
      show s.now + (P.routerLatency r - 1) ≤ s.now + 1
      omega

theorem swapsReady_of_due (P : Params) :
    InductiveUnder P (fun s => ∀ l v, ∀ f ∈ s.buf (.inputVc l v), f.stage.2 ≤ s.now + 1)
      SwapsReady where
  init _ h := nomatch h
  fire _ _ h := h
  tick _ h := h
  move s c s' _ hdue h hm := by
    cases hm with
    | swap _ hs =>
      intro e he
      rcases mem_cons.mp he with rfl | he
      · exact ⟨hdue _ _ _ (hs.head ▸ mem_cons_self ..), hdue _ _ _ (hs.head' ▸ mem_cons_self ..)⟩
      · exact h e he
    | _ => exact h

theorem swapsReady_of_latency (hlat : ∀ r, P.routerLatency r ≤ 2) (h : Reachable P s) :
    SwapsReady s :=
  (((swapsReady_of_due P).and (due_of_latency hlat)).reachable h).2

/-- **No lost wakeup.** If swaps exchange only flits due by the next cycle, a router with a flit in
stage `SA_` for cycle `t` has a wakeup by `t`, or by the next cycle. -/
theorem no_lost_wakeup (h : Reachable P s) (hready : SwapsReady s) (hdone : CycleDone P s) :
    ∀ r < P.numRouters, ∀ p ∈ P.inports r, ∀ v < P.numVcs, ∀ f ∈ s.buf (.inputVc p.link v),
      ∀ t, f.stage = (.sa, t) →
        ∃ c ∈ s.events (.router r), s.now < c ∧ c ≤ max (s.now + 1) t := by
  intro r hr p hp v hv f hf t ht
  obtain ⟨hlate, hsoon⟩ := awake_reachable h hready
  have htime : f.stage.2 = t := by rw [ht]
  by_cases hdue : t ≤ s.now + 1
  · have hnext := (hsoon r hr p hp v hv f hf (htime ▸ hdue)).resolve_left
      (hdone _ (mem_consumers.mpr hr))
    exact ⟨s.now + 1, hnext, Nat.lt_succ_self _, le_max_left _ _⟩
  · have hlt : s.now + 1 < t := Nat.lt_of_not_le hdue
    have hthen := hlate r hr p hp v hv f hf (htime ▸ hlt)
    exact ⟨t, htime ▸ hthen, Nat.lt_of_succ_lt hlt, le_max_right _ _⟩

def Params.quadShort : Params := { Params.quad with routerLatency := fun _ => 2 }

/-- The row with routers of two stages after `n` steps, with messages for node `0` from node `3` and,
three cycles later, from node `2`. -/
def quadShortRun (n : Nat) : Option Net :=
  let m : Message := ⟨0, 0, 0, 0, .singleton 0⟩
  (run .quadShort [.protocol 3 (.send 0 m 2 0), .protocol 2 (.send 0 m 5 0)]
    (.init .quadShort)).bind (simulate .quadShort n)

/-- With two stages, the router that a swap has handed a flit has its wakeup. -/
theorem no_lost_wakeup_quad : ∃ s, quadShortRun 27 = some s ∧ s.swapLog.length = 1 ∧
    ∃ f ∈ s.buf (.inputVc (.int 3 .West) 0), ∃ c ∈ s.events (.router 2),
      s.now < c ∧ c ≤ max (s.now + 1) f.stage.2 := by
  have hrun : (quadShortRun 27).bind (fun s => (s.buf (.inputVc (.int 3 .West) 0)).head?.map fun f =>
      (f.stage.1, s.swapLog.length, decide (CycleDone .quadShort s))) = some (.sa, 1, true) := by
    decide +kernel
  obtain ⟨s, hs, hhead⟩ := Option.bind_eq_some_iff.mp hrun
  obtain ⟨f, hf, hval⟩ := Option.map_eq_some_iff.mp hhead
  obtain ⟨hstage, hval⟩ := Prod.mk.inj hval
  obtain ⟨hlog, hdone⟩ := Prod.mk.inj hval
  have hreach : Reachable .quadShort s := by
    unfold quadShortRun at hs
    exact reachable_of_run_simulate _ .init hs
  have hready : SwapsReady s := swapsReady_of_latency (fun _ => le_refl 2) hreach
  have hmem := mem_of_mem_head? hf
  exact ⟨s, hs, hlog, f, hmem, no_lost_wakeup hreach hready (of_decide_eq_true hdone) 2 (by decide)
    ⟨.East, .int 3 .West⟩ (by decide) 0 (by decide) f hmem f.stage.2 (Prod.ext hstage rfl)⟩

/-- After the swap router `2` holds a flit due for switch allocation at cycle `12`, and has no
wakeup up to then. -/
theorem lost_wakeup_quad :
    ∃ s, quadRun 28 = some s ∧ Reachable .quad s ∧ CycleDone .quad s ∧ s.now = 10 ∧
      ∃ p ∈ Params.inports .quad 2, ∃ f ∈ s.buf (.inputVc p.link 0), f.stage = (.sa, 12) ∧
        ¬ ∃ c ∈ s.events (.router 2), s.now < c ∧ c ≤ max (s.now + 1) 12 := by
  have hrun : (quadRun 28).bind (fun s => (s.buf (.inputVc (.int 3 .West) 0)).head?.map fun f =>
      (f.stage, s.now, s.events (.router 2), decide (CycleDone .quad s))) =
        some ((.sa, 12), 10, [], true) := by
    decide +kernel
  obtain ⟨s, hs, hhead⟩ := Option.bind_eq_some_iff.mp hrun
  obtain ⟨f, hf, hval⟩ := Option.map_eq_some_iff.mp hhead
  obtain ⟨hstage, hval⟩ := Prod.mk.inj hval
  obtain ⟨hnow, hval⟩ := Prod.mk.inj hval
  obtain ⟨hev, hdone⟩ := Prod.mk.inj hval
  refine ⟨s, hs, quadRun_reachable hs, of_decide_eq_true hdone, hnow, ⟨.East, .int 3 .West⟩,
    by decide, f, mem_of_mem_head? hf, hstage, ?_⟩
  rintro ⟨c, hc, -⟩
  rw [hev] at hc
  cases hc

end NocSwap
