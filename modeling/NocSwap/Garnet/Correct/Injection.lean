import NocSwap.Garnet.Correct.Credits

/-!
# The order of injection
-/

namespace NocSwap

open Function List Nat

variable {P : Params} {s s' : Net} {n : Nat}

/-! ### Changes of what waits and what was sent -/

inductive Injects (P : Params) (s : Net) : Net → Prop
  | keep {s' : Net} (hnow : s'.now = s.now)
      (hbuf : ∀ n v, s'.buf (.niOutVc n v) = s.buf (.niOutVc n v))
      (hni : ∀ n, (s'.ni n).enqueueTime = (s.ni n).enqueueTime ∧ (s'.ni n).sent = (s.ni n).sent) :
      Injects P s s'
  | create {n vnet vc dest : Nat} {m : Message} (h : CreateAt P s n vnet vc dest m) :
      Injects P s (s.createFlit P n vnet vc dest m)
  | send {s' : Net} {n vc : Nat} {f : Flit} {fs : List Flit}
      (hb : s.buf (.niOutVc n vc) = f :: fs) (hc : isCandidateVc P s n vc = true)
      (hnow : s'.now = s.now)
      (hbuf : ∀ n' v, s'.buf (.niOutVc n' v) = update s.buf (.niOutVc n vc) fs (.niOutVc n' v))
      (hni : s'.ni = update s.ni n { s.ni n with
        enqueueTime := if f.isTail then update (s.ni n).enqueueTime vc infinite
          else (s.ni n).enqueueTime
        sent := { f with time := s.now + 1 } :: (s.ni n).sent }) : Injects P s s'

theorem Move.injects {c : Consumer} (hm : Move P s c s') : Injects P s s' := by
  have hset : ∀ {n : Nat} {x : NiRegs}, x.enqueueTime = (s.ni n).enqueueTime →
      x.sent = (s.ni n).sent → ∀ n', (update s.ni n x n').enqueueTime =
        (s.ni n').enqueueTime ∧ (update s.ni n x n').sent = (s.ni n').sent :=
    fun {n x} htime hsent n' => by
      rcases eq_or_ne n' n with rfl | hne
      · rw [update_self]
        exact ⟨htime, hsent⟩
      · rw [update_of_ne hne]
        exact ⟨rfl, rfl⟩
  cases hm with
  | create h => exact .create h
  | send _ _ hb hc => exact .send hb hc rfl (fun _ _ => by simp) rfl
  | niRegs n x h => exact .keep rfl (fun _ _ => rfl) (hset h.enqueueTime h.sent)
  | stall | unstall => exact .keep rfl (fun _ _ => by simp) (hset rfl rfl)
  | link | arrive | swap | grant | cross | eject =>
    exact .keep rfl (fun _ _ => by simp) fun _ => ⟨rfl, rfl⟩
  | _ => exact .keep rfl (fun _ _ => rfl) fun _ => ⟨rfl, rfl⟩

theorem vcAllocator_lt (P : Params) :
    Inductive P fun s => ∀ n v, (s.ni n).vcAllocator v < P.vcsPerVnet where
  init _ _ := P.vcs_pos
  fire _ _ h := h
  tick _ h := h
  move s c s' _ h hm n' := by
    have hset : ∀ {n : Nat} {x : NiRegs}, (∀ v, x.vcAllocator v < P.vcsPerVnet) →
        ∀ v, (update s.ni n x n').vcAllocator v < P.vcsPerVnet := fun {n x} hx v => by
      rcases eq_or_ne n' n with rfl | hne
      · rw [update_self]
        exact hx v
      · rw [update_of_ne hne]
        exact h n' v
    cases hm with
    | niRegs n x hk => exact hset (hk.vcAllocator (h n))
    | @create n | @send n | @stall n | @unstall n => exact hset (h n)
    | _ => exact h n'

theorem SendersOk.niOutVc_of_idle (h : SendersOk P s) {v : Nat}
    (hidle : (s.outVc (.extIn n) v).isInState .idle s.now = true) : s.buf (.niOutVc n v) = [] := by
  have hzero := (h.channel (.extIn n) v).eq_zero (of_decide_eq_true hidle).1
  have hlen : (s.buf (.niOutVc n v)).length = 0 := (Nat.add_eq_zero_iff.mp hzero).2
  exact eq_nil_of_length_eq_zero hlen

theorem SendersOk.niOutVc_tail (h : SendersOk P s) {v : Nat} {f : Flit} {fs : List Flit}
    (hb : s.buf (.niOutVc n v) = f :: fs) : fs = [] := by
  have hone := (h.channel (.extIn n) v).one
  have hlen : waiting s (.extIn n) v = fs.length + 1 := by
    show (s.buf (.niOutVc n v)).length = _
    rw [hb, length_cons]
  exact eq_nil_of_length_eq_zero (by omega)

/-- A flit that waits at interface `n` in a channel `v` of the virtual network it is injected into.
-/
structure WaitsAt (P : Params) (s : Net) (n v : Nat) (f : Flit) : Prop where
  ready : f.time ≤ s.now
  made : f.enqueueTime ≤ s.now
  registered : (s.ni n).enqueueTime v = f.enqueueTime
  vnet : v / P.vcsPerVnet = if P.injSingleVnet = 0 then f.vnet else 0

structure InjectionOk (P : Params) (s : Net) : Prop where
  waits : ∀ n v, ∀ f ∈ s.buf (.niOutVc n v), WaitsAt P s n v f
  sent : ∀ n, ∀ f ∈ (s.ni n).sent, f.enqueueTime ≤ s.now

def InjectionContext (P : Params) (s : Net) : Prop :=
  ((∀ b, ∀ f ∈ s.buf b, f.type = .headTail) ∧ SendersOk P s) ∧
    ∀ n v, (s.ni n).vcAllocator v < P.vcsPerVnet

theorem injectionContext (P : Params) : Inductive P (InjectionContext P) :=
  ((sendersOk P).and (headTail P)).both (vcAllocator_lt P)

theorem WaitsAt.keep {v : Nat} {f : Flit} (h : WaitsAt P s n v f) (hnow : s.now ≤ s'.now)
    (hni : (s'.ni n).enqueueTime v = (s.ni n).enqueueTime v) : WaitsAt P s' n v f :=
  ⟨h.ready.trans hnow, h.made.trans hnow, hni.trans h.registered, h.vnet⟩

theorem InjectionOk.create (h : InjectionOk P s) (hctx : InjectionContext P s)
    {vnet vc dest : Nat} {m : Message} (hc : CreateAt P s n vnet vc dest m) :
    InjectionOk P (s.createFlit P n vnet vc dest m) where
  waits n' v f hf := by
    obtain ⟨⟨-, hsend⟩, halloc⟩ := hctx
    have hempty := hsend.niOutVc_of_idle hc.idle
    rw [createFlit_buf, hempty] at hf
    rcases eq_or_ne (Buf.niOutVc n' v) (.niOutVc n vc) with he | hne
    · obtain ⟨rfl, rfl⟩ := Buf.niOutVc.inj he
      rw [update_self] at hf
      have hnew := (mem_insertFlit.mp hf).resolve_right (not_mem_nil)
      subst hnew
      refine ⟨le_refl _, le_refl _, ?_, hc.vc_vnet (halloc n')⟩
      simp [newFlit, Flit.new]
    · rw [update_of_ne hne] at hf
      refine (h.waits n' v f hf).keep (le_refl _) ?_
      rcases eq_or_ne n' n with rfl | hn
      · have hv : v ≠ vc := fun e => hne (e ▸ rfl)
        simp [hv]
      · simp [hn]
  sent n' f hf := by
    refine h.sent n' f ?_
    rcases eq_or_ne n' n with rfl | hn
    · simpa using hf
    · simpa [hn] using hf

theorem sentTime_of_ne {n' v vc : Nat} {f : Flit} {l : List Flit} (hne : ¬ (n' = n ∧ v = vc)) :
    (update s.ni n { s.ni n with
      enqueueTime := if f.isTail then update (s.ni n).enqueueTime vc infinite
        else (s.ni n).enqueueTime
      sent := l } n').enqueueTime v = (s.ni n').enqueueTime v := by
  rcases eq_or_ne n' n with rfl | hn
  · have hv : v ≠ vc := fun e => hne ⟨rfl, e⟩
    rw [update_self]
    split_ifs
    · exact update_of_ne hv ..
    · rfl
  · rw [update_of_ne hn]

theorem injectionOk (P : Params) : InductiveUnder P (InjectionContext P) (InjectionOk P) where
  init := ⟨fun _ _ _ h => (nomatch h), fun _ _ h => (nomatch h)⟩
  fire _ _ h := ⟨fun n v f hf => (h.waits n v f hf).keep (le_refl _) rfl, h.sent⟩
  tick _ h := ⟨fun n v f hf => (h.waits n v f hf).keep (le_succ _) rfl,
    fun n f hf => le_succ_of_le (h.sent n f hf)⟩
  move s c s' _ hctx h hm := by
    cases hm.injects with
    | keep hnow hbuf hni =>
      refine ⟨fun n v f hf => ?_, fun n f hf => ?_⟩
      · rw [hbuf] at hf
        exact (h.waits n v f hf).keep hnow.ge (by rw [(hni n).1])
      · rw [(hni n).2] at hf
        exact hnow ▸ h.sent n f hf
    | create hc => exact h.create hctx hc
    | @send _ n vc f fs hb _ hnow hbuf hni =>
      refine ⟨fun n' v g hg => ?_, fun n' g hg => ?_⟩
      · rw [hbuf, hctx.1.2.niOutVc_tail hb] at hg
        rcases eq_or_ne (Buf.niOutVc n' v) (.niOutVc n vc) with he | hne
        · rw [he, update_self] at hg
          cases hg
        · rw [update_of_ne hne] at hg
          refine (h.waits n' v g hg).keep hnow.ge ?_
          rw [hni]
          exact sentTime_of_ne fun e => hne (by rw [e.1, e.2])
      · rw [hni] at hg
        rcases eq_or_ne n' n with rfl | hne
        · rw [update_self] at hg
          rcases mem_cons.mp hg with rfl | hg
          · exact hnow ▸ (h.waits n' vc f (hb ▸ mem_cons_self ..)).made
          · exact hnow ▸ h.sent n' g hg
        · rw [update_of_ne hne] at hg
          exact hnow ▸ h.sent n' g hg

/-- No flit of `vnet` was sent by interface `n` before an earlier one that was sent since or still
waits. -/
structure InOrder (s : Net) (n vnet : Nat) : Prop where
  sent : (s.ni n).sent.Pairwise fun later earlier =>
    later.vnet = vnet → earlier.vnet = vnet → earlier.enqueueTime ≤ later.enqueueTime
  waiting : ∀ v, ∀ f ∈ s.buf (.niOutVc n v), ∀ g ∈ (s.ni n).sent,
    f.vnet = vnet → g.vnet = vnet → g.enqueueTime ≤ f.enqueueTime

theorem enqueueTime_le_of_candidate {v v' : Nat} {f g : Flit} {gs : List Flit}
    (hc : isCandidateVc P s n v = true) (hord : P.isVNetOrdered (v / P.vcsPerVnet) = true)
    (hf : WaitsAt P s n v f) (hg : WaitsAt P s n v' g) (hb : s.buf (.niOutVc n v') = g :: gs)
    (hvnet : v' / P.vcsPerVnet = v / P.vcsPerVnet) : f.enqueueTime ≤ g.enqueueTime := by
  simp only [isCandidateVc, hord, Bool.not_true, Bool.false_or, Bool.and_eq_true] at hc
  have hnone := hc.2
  rw [Bool.not_eq_true', any_eq_false] at hnone
  have hv' : v / P.vcsPerVnet * P.vcsPerVnet + v' % P.vcsPerVnet = v' := by
    rw [← hvnet]
    exact div_add_mod' ..
  have hnot := hnone (v' % P.vcsPerVnet) (mem_range.mpr (mod_lt _ P.vcs_pos))
  rw [hv', hb, hf.registered, hg.registered] at hnot
  have hready : flitReady (g :: gs) s.now = true := decide_eq_true hg.ready
  rw [hready, Bool.true_and, decide_eq_true_eq] at hnot
  exact Nat.le_of_not_lt hnot

theorem InOrder.keep {vnet : Nat} (h : InOrder s n vnet) (hsent : (s'.ni n).sent = (s.ni n).sent)
    (hbuf : ∀ v, ∀ f ∈ s'.buf (.niOutVc n v), f ∈ s.buf (.niOutVc n v) ∨
      ∀ g ∈ (s.ni n).sent, g.enqueueTime ≤ f.enqueueTime) : InOrder s' n vnet where
  sent := by
    rw [hsent]
    exact h.sent
  waiting v f hf g hg hfv hgv := by
    rw [hsent] at hg
    rcases hbuf v f hf with hf | hle
    · exact h.waiting v f hf g hg hfv hgv
    · exact hle g hg

theorem InOrder.send {vnet v : Nat} {f f' : Flit} (h : InOrder s n vnet)
    (hf : f ∈ s.buf (.niOutVc n v)) (hvnet : f'.vnet = f.vnet)
    (htime : f'.enqueueTime = f.enqueueTime) (hsent : (s'.ni n).sent = f' :: (s.ni n).sent)
    (hbuf : ∀ v, ∀ g ∈ s'.buf (.niOutVc n v), g ∈ s.buf (.niOutVc n v))
    (hfirst : ∀ v, ∀ g ∈ s.buf (.niOutVc n v), f.vnet = vnet → g.vnet = vnet →
      f.enqueueTime ≤ g.enqueueTime) : InOrder s' n vnet where
  sent := by
    rw [hsent, pairwise_cons]
    refine ⟨fun g hg hfv hgv => ?_, h.sent⟩
    rw [htime]
    exact h.waiting v f hf g hg (hvnet ▸ hfv) hgv
  waiting v' g hg e he hgv hev := by
    rw [hsent] at he
    rcases mem_cons.mp he with rfl | he
    · rw [htime]
      exact hfirst v' g (hbuf v' g hg) (hvnet ▸ hev) hgv
    · exact h.waiting v' g (hbuf v' g hg) e he hgv hev

section Order

variable {vnet : Nat}
  (hinj : P.injSingleVnet = 0 ∨ P.isVNetOrdered 0 = true ∨ P.vcsPerVnet = 1)
  (hord : P.isVNetOrdered vnet = true)
include hinj hord

theorem InjectionOk.sent_first (h : InjectionOk P s) (hsend : SendersOk P s) {v v' : Nat}
    {f g : Flit} {fs : List Flit} (hb : s.buf (.niOutVc n v) = f :: fs)
    (hc : isCandidateVc P s n v = true) (hg : g ∈ s.buf (.niOutVc n v')) (hfv : f.vnet = vnet)
    (hgv : g.vnet = vnet) : f.enqueueTime ≤ g.enqueueTime := by
  have hwf := h.waits n v f (hb ▸ mem_cons_self ..)
  have hwg := h.waits n v' g hg
  have hsame : v' / P.vcsPerVnet = v / P.vcsPerVnet := by
    rw [hwf.vnet, hwg.vnet, hfv, hgv]
  obtain ⟨g', gs, hb'⟩ := exists_cons_of_ne_nil (ne_nil_of_mem hg)
  have hnil := hsend.niOutVc_tail hb'
  subst hnil
  obtain rfl : g = g' := mem_singleton.mp (hb' ▸ hg)
  have hcand := fun ho => enqueueTime_le_of_candidate hc ho hwf hwg hb' hsame
  by_cases h0 : P.injSingleVnet = 0
  · have hown : v / P.vcsPerVnet = vnet := by rw [hwf.vnet, if_pos h0, hfv]
    exact hcand (hown ▸ hord)
  · have hzero : v / P.vcsPerVnet = 0 := by rw [hwf.vnet, if_neg h0]
    rcases hinj.resolve_left h0 with ho | hone
    · exact hcand (hzero ▸ ho)
    · -- with one channel the two flits are the same
      rw [hone, Nat.div_one, Nat.div_one] at hsame
      rw [hsame, hb] at hb'
      exact (List.cons.inj hb').1 ▸ le_refl _

theorem inOrder : InductiveUnder P (fun s => InjectionContext P s ∧ InjectionOk P s)
    fun s => ∀ n, InOrder s n vnet where
  init _ := ⟨.nil, fun _ _ h => (nomatch h)⟩
  fire _ _ h n := ⟨(h n).sent, (h n).waiting⟩
  tick _ h n := ⟨(h n).sent, (h n).waiting⟩
  move s c s' _ hI h hm n' := by
    obtain ⟨⟨⟨-, hsend⟩, -⟩, hok⟩ := hI
    cases hm.injects with
    | keep _ hbuf hni => exact (h n').keep (hni n').2 fun v f hf => .inl (hbuf n' v ▸ hf)
    | @create n _ vc _ _ hc =>
      refine (h n').keep ?_ fun v f hf => ?_
      · rcases eq_or_ne n' n with rfl | hne
        · simp
        · simp [hne]
      · rw [createFlit_buf] at hf
        rcases mem_update hf with hf | ⟨he, hf⟩
        · exact .inl hf
        · rcases mem_insertFlit.mp hf with rfl | hf
          · exact .inr (hok.sent n')
          · exact .inl (he ▸ hf)
    | @send _ n vc f fs hb hc _ hbuf hni =>
      have hrest : ∀ v, ∀ g ∈ s'.buf (.niOutVc n' v), g ∈ s.buf (.niOutVc n' v) := by
        intro v g hg
        rw [hbuf] at hg
        rcases mem_update hg with hg | ⟨he, hg⟩
        · exact hg
        · rw [he, hb]
          exact mem_cons_of_mem _ hg
      rcases eq_or_ne n' n with rfl | hne
      · refine (h n').send (v := vc) (f := f) (hb ▸ mem_cons_self ..) ?_ ?_
          (by rw [hni, update_self]) hrest fun v g hg hfv hgv => ?_
        · rfl
        · rfl
        · exact hok.sent_first hinj hord hsend hb hc hg hfv hgv
      · exact (h n').keep (by rw [hni, update_of_ne hne]) fun v g hg => .inl (hrest v g hg)

end Order

/-- **Injection order.** Flits of an ordered virtual network are sent in the order in which they
were made, if injected into their own or an ordered virtual network, or if there is one channel. -/
theorem injection_order (hinj : P.injSingleVnet = 0 ∨ P.isVNetOrdered 0 = true ∨ P.vcsPerVnet = 1)
    (h : Reachable P s) : ∀ n vnet, P.isVNetOrdered vnet = true → InOrder s n vnet := by
  intro n vnet hord
  have hctx := (injectionOk P).and (injectionContext P)
  exact (((inOrder hinj hord).and hctx).reachable h).2 n

theorem pairwise_one_two : [1, 2].Pairwise (· < ·) := by decide

/-- Two messages of virtual network `1`, the first for two nodes, enter interface `0` of the hub. -/
def hubSends : List Label :=
  let zero : Nat → Nat := fun _ => 0
  [.protocol 0 (.send 1 ⟨0, 0, 0, 0, ⟨[1, 2], pairwise_one_two⟩⟩ 1 0),
    .protocol 0 (.send 1 ⟨0, 0, 0, 0, .singleton 1⟩ 2 0), .tick, .wake (.ni 0) zero, .tick,
    .wake (.ni 0) zero, .wake (.link (.extIn 0)) zero, .tick, .wake (.ni 0) zero]

/-- In their own virtual networks, the flits of the first message leave before that of the second.
-/
theorem injection_order_own_vnet : ∃ s, run (.hub 0) hubSends (.init (.hub 0)) = some s ∧
      (s.ni 0).sent.map (·.enqueueTime) = [2, 1, 1] ∧ InOrder s 0 1 := by
  have hrun : (run (.hub 0) hubSends (.init (.hub 0))).map
      (fun s => (s.ni 0).sent.map (·.enqueueTime)) = some [2, 1, 1] := by
    decide +kernel
  obtain ⟨s, hs, hsent⟩ := Option.map_eq_some_iff.mp hrun
  exact ⟨s, hs, hsent, injection_order (.inl rfl) (reachable_of_run .init hs) 0 1 rfl⟩

/-- In the first virtual network, the second message overtakes the last flit of the first. -/
theorem injection_order_hub :
    ∃ s, run (.hub 1) hubSends (.init (.hub 1)) = some s ∧ (Params.hub 1).isVNetOrdered 1 = true ∧
      (s.ni 0).sent.map (fun f => (f.vnet, f.enqueueTime)) = [(1, 1), (1, 2), (1, 1)] ∧
      ¬ InOrder s 0 1 := by
  have hrun : (run (.hub 1) hubSends (.init (.hub 1))).map
      (fun s => (s.ni 0).sent.map fun f => (f.vnet, f.enqueueTime)) =
        some [(1, 1), (1, 2), (1, 1)] := by
    decide +kernel
  obtain ⟨s, hs, hsent⟩ := Option.map_eq_some_iff.mp hrun
  refine ⟨s, hs, rfl, hsent, fun h => ?_⟩
  have horder : [(1, 1), (1, 2), (1, 1)].Pairwise fun later earlier : Nat × Nat =>
      later.1 = 1 → earlier.1 = 1 → earlier.2 ≤ later.2 := by
    rw [← hsent, pairwise_map]
    exact h.sent
  exact absurd horder (by decide)

end NocSwap
