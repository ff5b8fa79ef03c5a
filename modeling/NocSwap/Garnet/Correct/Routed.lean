import NocSwap.Garnet.Correct.Injection
import NocSwap.Garnet.Correct.Pointer

/-!
# The bit `is_swap` and the marks of routed flits
-/

namespace NocSwap

open Ledger List Function

variable {P : Params} {s s' : Net}

/-! ### The virtual network of a channel -/

def Params.injVnet (P : Params) (vnet : Nat) : Nat := if P.injSingleVnet = 0 then vnet else 0

theorem div_eq_injVnet_iff (h1 : P.injSingleVnet ≠ 0) {v vnet : Nat} :
    v / P.vcsPerVnet = P.injVnet vnet ↔ v < P.vcsPerVnet := by
  rw [Params.injVnet, if_neg h1, Nat.div_eq_zero_iff_lt P.vcs_pos]

/-- **Every flit is in a channel of the virtual network that it was injected into.** -/
theorem vc_vnet (P : Params) : Inductive P fun s =>
    ((∀ n v, (s.ni n).vcAllocator v < P.vcsPerVnet) ∧ ∀ b, ∀ f ∈ s.buf b, NamesVc b f) ∧
      ∀ b, ∀ f ∈ s.buf b, f.vc / P.vcsPerVnet = P.injVnet f.vnet := by
  refine (flits_inductive fun s hI h b f haft => ?_).and ((vcAllocator_lt P).both (namesVc P))
  obtain ⟨halloc, hname⟩ := hI
  have hhead : ∀ {l v g gs}, s.buf (.inputVc l v) = g :: gs →
      v / P.vcsPerVnet = P.injVnet g.vnet := fun {l v g gs} hb => by
    have hg : g ∈ s.buf (.inputVc l v) := hb ▸ mem_cons_self ..
    have hvc : g.vc = v := hname _ g hg
    exact hvc ▸ h _ g hg
  cases haft with
  | kept hf | linked _ hf | cleared hf | crossed _ hf | sent hf | stalled hf => exact (h _ _ hf :)
  | arrived ha => exact (h _ _ (ha.head ▸ mem_cons_self ..) :)
  -- a swap leaves the number of the channel as it is
  | handedBack hs => exact (hhead hs.head' :)
  | swapped hs => exact (hhead hs.head :)
  | @granted r i o v w _ _ _ _ _ hg =>
    obtain ⟨⟨j, hj, hw⟩, -⟩ := selectFreeVc_eq_some hg.free
    show w / P.vcsPerVnet = _
    rw [hw, Nat.mul_comm, Nat.mul_add_div P.vcs_pos, Nat.div_eq_of_lt hj, Nat.add_zero]
    exact (hhead hg.head :)
  | created hc => exact hc.vc_vnet (halloc _)

def routedWeight (P : Params) (r : Nat) : Buf → Flit → Nat
  | .inputVc l _, f => if l ∈ (P.inports r).map (fun p => p.link) ∧ f.routedSwap = true then 1 else 0
  | _, _ => 0

def routedCount (P : Params) (s : Net) (r : Nat) : Nat := tally (places P) (routedWeight P r) s.buf

theorem routedWeight_inport {r r' v : Nat} {p : Port} (hr : r < P.numRouters)
    (hr' : r' < P.numRouters) (hp : p ∈ P.inports r) (f : Flit) :
    routedWeight P r' (.inputVc p.link v) f = if r' = r ∧ f.routedSwap = true then 1 else 0 := by
  have hmem : p.link ∈ (P.inports r').map (fun p => p.link) ↔ r' = r := by
    constructor
    · intro h
      obtain ⟨q, hq, hl⟩ := mem_map.mp h
      by_contra hne
      exact inport_link_ne hr hr' hne hp hq hl.symm
    · rintro rfl
      exact mem_map.mpr ⟨p, hp, rfl⟩
  simp only [routedWeight, hmem]

def Unmarked : Buf → Flit → Prop
  | .inputVc .., _ => True
  | _, f => f.routedSwap = false

theorem unmarked (hi : P.interswap = true) :
    Inductive P fun s => ∀ b, ∀ f ∈ s.buf b, Unmarked b f := by
  refine (flits_inductive (I := fun _ => True) fun s _ h b f haft => ?_).alone
  cases haft with
  | kept hf => exact h b f hf
  | linked _ hf | crossed _ hf | sent hf | stalled hf => exact (h _ _ hf :)
  | cleared => cases b <;> first | exact trivial | exact rfl
  | @granted _ _ _ _ _ _ _ f =>
    show (if P.interswap && f.routedSwap then false else f.routedSwap) = false
    rw [hi]
    cases f.routedSwap <;> rfl
  | created => exact rfl
  | _ => exact trivial

theorem sendRoutedSwap_eq_false (P : Params) :
    Inductive P fun s => ∀ r, (s.router r).sendRoutedSwap = false where
  init _ := rfl
  fire _ _ h := h
  tick _ h := h
  move s c s' _ h hm r' := by
    have hset : ∀ {t : Nat → RouterRegs} {r : Nat} {x : RouterRegs},
        (∀ r, (t r).sendRoutedSwap = false) → x.sendRoutedSwap = false →
          ∀ r', (update t r x r').sendRoutedSwap = false := fun {t r x} ht hx r' => by
      rcases eq_or_ne r' r with rfl | hne
      · rwa [update_self]
      · rw [update_of_ne hne]
        exact ht r'
    cases hm with
    | routerRegs r x hk => exact hset h (hk.sendRoutedSwap.trans (h r)) r'
    | @arrive r | @ptr r =>
      refine hset h ?_ r'
      exact h r
    | clearSend r => exact hset h rfl r'
    | @swap u d =>
      refine hset (fun r => ?_) rfl r'
      split_ifs
      · refine hset h ?_ r
        exact h d
      · exact h r
    | @bailOut u d =>
      refine hset (hset h ?_) ?_ r'
      · exact h u
      · exact h d
    | grant hg => exact hset h (hg.sendRoutedSwap.trans (h _)) r'
    | _ => exact h r'

theorem handedBack_unmarked (h0 : P.noIsSwap = 0) :
    Inductive P fun s => ∀ e ∈ s.swapLog, e.2.2.routedSwap = false where
  init _ h := nomatch h
  fire _ _ h := h
  tick _ h := h
  move s c s' _ h hm := by
    cases hm with
    | swap _ hs =>
      intro e he
      rcases mem_cons.mp he with rfl | he
      · exact hs.notRouted h0
      · exact h e he
    | _ => exact h

def RoutedOk (P : Params) (s : Net) : Prop :=
  ∀ r < P.numRouters, routedCount P s r = if (s.router r).isSwap = true then 1 else 0

structure RoutedContext (P : Params) (s : Net) : Prop where
  headTail : ∀ b, ∀ f ∈ s.buf b, f.type = .headTail
  senders : SendersOk P s
  alloc : ∀ n v, (s.ni n).vcAllocator v < P.vcsPerVnet
  name : ∀ b, ∀ f ∈ s.buf b, NamesVc b f
  vc_lt : ∀ b, ∀ f ∈ s.buf b, f.vc < P.vcsPerVnet
  unmarked : ∀ b, ∀ f ∈ s.buf b, Unmarked b f
  send : ∀ r, (s.router r).sendRoutedSwap = false

theorem routedContext (hi : P.interswap = true) (h0 : P.noIsSwap = 0) :
    Inductive P (RoutedContext P) := by
  have h1 : P.injSingleVnet ≠ 0 := fun h => by
    rw [Params.noIsSwap, if_pos h] at h0
    cases h0
  refine ((((sendersOk P).and (headTail P)).both (vc_vnet P)).both
    ((unmarked hi).both (sendRoutedSwap_eq_false P))).congr fun s => ⟨?_, fun h => ?_⟩
  · rintro ⟨⟨⟨h2, h3⟩, ⟨h4, h5⟩, h6⟩, h7, h8⟩
    exact ⟨h2, h3, h4, h5, fun b f hf => (div_eq_injVnet_iff h1).mp (h6 b f hf), h7, h8⟩
  · refine ⟨⟨⟨h.headTail, h.senders⟩, ⟨h.alloc, h.name⟩, fun b f hf => ?_⟩, h.unmarked, h.send⟩
    exact (div_eq_injVnet_iff h1).mpr (h.vc_lt b f hf)

namespace RoutedOk

theorem keep (h : RoutedOk P s) (hcount : ∀ r, routedCount P s' r = routedCount P s r)
    (hbit : ∀ r, (s'.router r).isSwap = (s.router r).isSwap) : RoutedOk P s' := fun r hr => by
  rw [hcount, hbit]
  exact h r hr

theorem carry (h : RoutedOk P s) {a b : Buf} {f f' : Flit} {fs fs' : List Flit}
    (hbuf : s'.buf = Function.update (Function.update s.buf a fs) b fs') (hf : s.buf a = f :: fs)
    (hf' : fs'.Perm (f' :: s.buf b)) (ha : a ∈ places P) (hb : b ∈ places P) (hab : a ≠ b)
    (hwa : ∀ r, routedWeight P r a f = 0) (hwb : ∀ r, routedWeight P r b f' = 0)
    (hbit : ∀ r, (s'.router r).isSwap = (s.router r).isSwap) : RoutedOk P s' := by
  refine h.keep (fun r => ?_) hbit
  have hmove := tally_move (w := routedWeight P r) ha hb hab (.of_eq hf) hf'
  rw [hwa, hwb] at hmove
  unfold routedCount
  rw [hbuf]
  exact hmove

theorem isSwap_of_routed (h : RoutedOk P s) {r v : Nat} {p : Port} {f : Flit}
    (hr : r < P.numRouters) (hp : p ∈ P.inports r) (hv : v < P.numVcs)
    (hf : f ∈ s.buf (.inputVc p.link v)) (hm : f.routedSwap = true) : (s.router r).isSwap = true := by
  have hle := le_tally (w := routedWeight P r) (inputVc_mem_places hr hp hv) hf
  rw [routedWeight_inport hr hr hp, if_pos ⟨rfl, hm⟩] at hle
  have hcount := h r hr
  unfold routedCount at hcount
  by_contra hbit
  rw [if_neg hbit] at hcount
  omega

theorem update (h : RoutedOk P s) {a : Buf} {fs : List Flit}
    (hbuf : s'.buf = Function.update s.buf a fs) (ha : a ∈ places P)
    (hold : ∀ r, weight (routedWeight P r) a (s.buf a) = 0)
    (hnew : ∀ r, weight (routedWeight P r) a fs = 0)
    (hbit : ∀ r, (s'.router r).isSwap = (s.router r).isSwap) : RoutedOk P s' := by
  refine h.keep (fun r => ?_) hbit
  have hupd := tally_update (w := routedWeight P r) (c := s.buf) ha fs
  rw [hold, hnew] at hupd
  unfold routedCount
  rw [hbuf]
  exact hupd

theorem grant (hi : P.interswap = true) (h : RoutedOk P s) {r i o v w : Nat} {p op : Port}
    {f : Flit} {fs : List Flit} {x : RouterRegs} (hg : GrantAt P s r i o v w p op f fs x)
    (hbuf : s'.buf = Function.update (Function.update s.buf (.inputVc p.link v) fs)
      (.switchBuffer r i) (insertFlit (grantedFlit P s f o w op) (s.buf (.switchBuffer r i))))
    (hreg : s'.router = Function.update s.router r x) : RoutedOk P s' := by
  have hp := mem_of_getElem? hg.port
  intro r' hr'
  have hmove := tally_move (w := routedWeight P r') (inputVc_mem_places hg.router_lt hp hg.vc_lt)
    (switchBuffer_mem_places hg.router_lt hg.port) (by simp) (.of_eq hg.head)
    (insertFlit_perm (grantedFlit P s f o w op) (s.buf (.switchBuffer r i)))
  rw [← hbuf, routedWeight_inport hg.router_lt hr' hp] at hmove
  have hsw : routedWeight P r' (.switchBuffer r i) (grantedFlit P s f o w op) = 0 := rfl
  have hcount := h r' hr'
  unfold routedCount at hcount ⊢
  rw [hreg]
  rcases eq_or_ne r' r with rfl | hne
  · rw [update_self, hg.isSwap, hi, Bool.true_and]
    by_cases hm : f.routedSwap = true
    · have hbit := h.isSwap_of_routed hr' hp hg.vc_lt (hg.head ▸ mem_cons_self ..) hm
      rw [if_pos hbit] at hcount
      rw [if_pos ⟨rfl, hm⟩] at hmove
      simp only [hm, if_true, Bool.false_eq_true, if_false]
      omega
    · rw [if_neg fun h => hm h.2] at hmove
      simp only [hm, Bool.false_eq_true, if_false]
      omega
  · rw [update_of_ne hne]
    rw [if_neg fun h => hne h.1] at hmove
    omega

theorem swap (h0 : P.noIsSwap = 0) (h : RoutedOk P s) (hsend : ∀ r, (s.router r).sendRoutedSwap = false)
    {u d v : Nat} {p q : Port} {f g : Flit} {fs gs : List Flit} {fOut gOut : Nat}
    (hs : SwapAt P s u d v p q f g fs gs fOut gOut)
    (hbuf : s'.buf = Function.update
      (Function.update s.buf (.inputVc p.link v) (swappedFlit P u g gOut v :: fs))
      (.inputVc q.link v) (swappedFlit P d { f with routedSwap := true } fOut v :: gs))
    (hreg : s'.router = swapRegs P s u d f) : RoutedOk P s' := by
  obtain ⟨hlt, hne⟩ := downstream_spec hs.downstream_eq
  obtain ⟨ha, hb, hab⟩ := hs.places
  have hp := mem_of_getElem? hs.ptr.port
  have hq := mem_of_getElem? hs.facing
  intro r hr
  have hex := tally_exchange (w := routedWeight P r)
    (swappedFlit P d { f with routedSwap := true } fOut v) (swappedFlit P u g gOut v) ha hb hab
    hs.head hs.head'
  have hg : (swappedFlit P u g gOut v).routedSwap = false := hs.notRouted h0
  rw [← hbuf, routedWeight_inport hs.router_lt hr hp, routedWeight_inport hlt hr hq,
    routedWeight_inport hs.router_lt hr hp, routedWeight_inport hlt hr hq, hs.notRouted h0, hg] at hex
  simp only [swappedFlit, Bool.false_eq_true, and_false, if_false, and_true, Nat.add_zero] at hex
  have hcount := h r hr
  unfold routedCount at hcount ⊢
  rw [hreg]
  unfold swapRegs
  rw [if_pos h0, hsend u, Bool.or_false]
  rcases eq_or_ne r u with rfl | hru
  · rw [update_self]
    rw [if_neg hne.symm] at hex
    by_cases hm : f.routedSwap = true
    · have hbit := h.isSwap_of_routed hr hp hs.ptr.vc_lt (hs.head ▸ mem_cons_self ..) hm
      rw [if_pos hbit] at hcount
      rw [if_pos ⟨rfl, hm⟩] at hex
      simp only [hm, if_true, Bool.false_eq_true, if_false]
      omega
    · rw [if_neg fun h => hm h.2] at hex
      simp only [hm, Bool.false_eq_true, if_false]
      omega
  · rw [update_of_ne hru]
    rw [if_neg fun h => hru h.1] at hex
    rcases eq_or_ne r d with rfl | hrd
    · rw [update_self, if_pos rfl]
      rw [if_neg (by rw [hs.notSwapped h0]; exact Bool.false_ne_true)] at hcount
      rw [if_pos rfl] at hex
      omega
    · rw [update_of_ne hrd]
      rw [if_neg hrd] at hex
      omega

end RoutedOk

def HeadsOnly (P : Params) (s : Net) : Prop :=
  ∀ b ∈ places P, ∀ l v, b = .inputVc l v →
    (s.buf b).length ≤ 1 ∧ (s.buf b ≠ [] → v < P.vcsPerVnet)

theorem RoutedContext.headsOnly (h : RoutedContext P s) : HeadsOnly P s := by
  rintro b hb l v rfl
  obtain ⟨hl, hv⟩ := mem_places.mp hb
  refine ⟨h.senders.length_le_one hl hv, fun hne => ?_⟩
  obtain ⟨f, fs, hf⟩ := exists_cons_of_ne_nil hne
  have hmem : f ∈ s.buf (.inputVc l v) := hf ▸ mem_cons_self ..
  have hvc : f.vc = v := h.name _ f hmem
  exact hvc ▸ h.vc_lt _ f hmem

theorem clearRouted_length (s : Net) (r : Nat) (b : Buf) :
    ((s.clearRouted P r).buf b).length = (s.buf b).length := by
  cases b with
  | inputVc l v =>
    simp only [Net.clearRouted]
    split_ifs
    · cases s.buf (.inputVc l v) <;> rfl
    · rfl
  | _ => rfl

theorem HeadsOnly.clearRouted (h : HeadsOnly P s) (r : Nat) : HeadsOnly P (s.clearRouted P r) := by
  intro b hb l v hbl
  rw [clearRouted_length, ne_eq, clearRouted_eq_nil]
  exact h b hb l v hbl

theorem routedCount_clearRouted (h : HeadsOnly P s) {r r' : Nat} (hr : r < P.numRouters)
    (hr' : r' < P.numRouters) :
    routedCount P (s.clearRouted P r) r' = if r' = r then 0 else routedCount P s r' := by
  split_ifs with heq
  · subst heq
    refine tally_eq_zero.mpr fun b hb f hf => ?_
    cases b with
    | inputVc l v =>
      obtain ⟨hlen, hv⟩ := h _ hb l v rfl
      by_cases hl : l ∈ (P.inports r').map (fun p => p.link)
      · -- the only flit of the channel is at its head, and has been cleared
        cases hbuf : s.buf (.inputVc l v) with
        | nil => simp [Net.clearRouted, hbuf, unsetHead] at hf
        | cons g gs =>
          have hnil : gs = [] := by
            rw [hbuf, length_cons] at hlen
            exact eq_nil_of_length_eq_zero (by omega)
          have hlt := hv (hbuf ▸ cons_ne_nil _ _)
          simp only [Net.clearRouted, if_pos (And.intro hl hlt), hbuf, unsetHead, hnil,
            mem_singleton] at hf
          rw [hf]
          exact if_neg fun hm => Bool.false_ne_true hm.2
      · exact if_neg fun hm => hl hm.1
    | _ => rfl
  · refine Finset.sum_congr rfl fun b _ => ?_
    cases b with
    | inputVc l v =>
      simp only [Net.clearRouted]
      split_ifs with hc
      · -- the channel is one of another router
        have hzero : ∀ f : Flit, routedWeight P r' (.inputVc l v) f = 0 := fun f => by
          obtain ⟨p, hp, rfl⟩ := mem_map.mp hc.1
          rw [routedWeight_inport hr hr' hp, if_neg fun hm => heq hm.1]
        rw [weight_eq_zero.mpr fun f _ => hzero f, weight_eq_zero.mpr fun f _ => hzero f]
      · rfl
    | _ => rfl

theorem RoutedOk.bailOut (h : RoutedOk P s) (hheads : HeadsOnly P s) {u d : Nat}
    (hu : u < P.numRouters) (hd : d < P.numRouters) :
    RoutedOk P ((((s.setRouter u { s.router u with isSwap := false }).setRouter d
      { s.router d with isSwap := false }).clearRouted P u).clearRouted P d) := by
  intro r hr
  have hset : HeadsOnly P ((s.setRouter u { s.router u with isSwap := false }).setRouter d
      { s.router d with isSwap := false }) := hheads
  rw [routedCount_clearRouted (hset.clearRouted u) hd hr, routedCount_clearRouted hset hu hr]
  have hcount : routedCount P ((s.setRouter u { s.router u with isSwap := false }).setRouter d
      { s.router d with isSwap := false }) r = routedCount P s r := rfl
  rw [hcount, h r hr]
  simp only [Net.clearRouted_router, Net.setRouter_router]
  rcases eq_or_ne r d with rfl | hrd
  · simp
  · rw [if_neg hrd, update_of_ne hrd]
    rcases eq_or_ne r u with rfl | hru
    · simp
    · rw [if_neg hru, Net.setRouter_router, update_of_ne hru]

theorem routedOk (hi : P.interswap = true) (h0 : P.noIsSwap = 0) :
    InductiveUnder P (RoutedContext P) (RoutedOk P) where
  init r _ := by simp [routedCount, tally, Net.init]
  fire _ _ h := h
  tick _ h := h
  move s c s' _ hI h hm := by
    have hbits : ∀ {r : Nat} {x : RouterRegs}, x.isSwap = (s.router r).isSwap →
        ∀ r', (update s.router r x r').isSwap = (s.router r').isSwap := fun {r x} hx r' => by
      rcases eq_or_ne r' r with rfl | hne
      · rwa [update_self]
      · rw [update_of_ne hne]
    cases hm with
    | stats | sched | niRegs | creditLink | credit => exact h
    | routerRegs r x hk => exact h.keep (fun _ => rfl) (hbits hk.isSwap)
    | clearSend | ptr => exact h.keep (fun _ => rfl) (hbits rfl)
    | link hl hb =>
      exact h.carry rfl hb (insertFlit_perm ..) (mem_places.mpr hl) (mem_places.mpr hl) (by simp)
        (fun _ => rfl) (fun _ => rfl) fun _ => rfl
    | @arrive r p f fs outport o ha =>
      have hl := inport_mem_links ha.router_lt ha.port
      have hmark : f.routedSwap = false :=
        hI.unmarked (.linkBuffer p.link) f (ha.head ▸ mem_cons_self ..)
      refine h.carry rfl ha.head (insertFlit_perm ..) (mem_places.mpr hl)
        (inputVc_mem_places ha.router_lt ha.port ha.vc_lt) (by simp) (fun _ => rfl)
        (fun r' => if_neg fun hm => ?_) (hbits rfl)
      exact Bool.false_ne_true (hmark.symm.trans hm.2)
    | swap _ hs => exact h.swap h0 hI.send hs rfl rfl
    | bailOut _ _ hu hd => exact h.bailOut hI.headsOnly hu hd
    | grant hg => exact h.grant hi hg rfl rfl
    | cross hr hi hb _ ho =>
      have hl := outport_mem_links hr (mem_of_getElem? ho)
      exact h.carry rfl hb (insertFlit_perm ..) (mem_places.mpr ⟨hr, hi⟩) (mem_places.mpr hl)
        (by simp) (fun _ => rfl) (fun _ => rfl) fun _ => rfl
    | create hc =>
      exact h.update rfl (niOutVc_mem_places hc.node_lt hc.vc_lt)
        (fun _ => weight_eq_zero.mpr fun _ _ => rfl) (fun _ => weight_eq_zero.mpr fun _ _ => rfl)
        fun _ => rfl
    | send hn hv hb =>
      exact h.carry rfl hb (insertFlit_perm ..) (niOutVc_mem_places hn hv)
        (mem_places.mpr (extIn_mem_links hn)) (by simp) (fun _ => rfl) (fun _ => rfl) fun _ => rfl
    | eject hn =>
      exact h.update rfl (mem_places.mpr (extOut_mem_links hn))
        (fun _ => weight_eq_zero.mpr fun _ _ => rfl) (fun _ => weight_eq_zero.mpr fun _ _ => rfl)
        fun _ => rfl
    | stall hn hb =>
      exact h.carry rfl hb (perm_append_singleton ..) (mem_places.mpr (extOut_mem_links hn))
        (mem_places.mpr hn) (by simp) (fun _ => rfl) (fun _ => rfl) fun _ => rfl
    | unstall hn =>
      exact h.update rfl (mem_places.mpr hn) (fun _ => weight_eq_zero.mpr fun _ _ => rfl)
        (fun _ => weight_eq_zero.mpr fun _ _ => rfl) fun _ => rfl

theorem routed_faults (hI : RoutedContext P s) (h : RoutedOk P s) {e : Fault} (hf : FaultAt P s e) :
    e ∉ [Fault.routedIsSwap, .enqueueRouted, .grantIsSwap, .grantSendRoutedSwap] := by
  cases hf with
  | @routedIsSwap r v p f fs hr hp hv hb hm _ hbit =>
    have hmark : f.routedSwap = true := hm.resolve_right fun hs => by
      rw [hI.send r] at hs
      cases hs
    rw [h.isSwap_of_routed hr hp hv (hb ▸ mem_cons_self ..) hmark] at hbit
    cases hbit
  | @grantIsSwap r v p f fs hr hp hv hb hm _ hbit =>
    rw [h.isSwap_of_routed hr hp hv (hb ▸ mem_cons_self ..) hm] at hbit
    cases hbit
  | @grantSendRoutedSwap r hs =>
    rw [hI.send r] at hs
    cases hs
  | @enqueueRouted u d v p q f g fs gs hends hg h0 hm =>
    obtain ⟨hlt, -⟩ := downstream_spec hends.downstream_eq
    have hbit := h.isSwap_of_routed hlt (mem_of_getElem? hends.facing) hends.ptr.vc_lt
      (hg ▸ mem_cons_self ..) hm
    rw [hends.notSwapped h0] at hbit
    cases hbit
  | outportDir _ _ _ _ _ he => rcases he with rfl | rfl <;> decide
  | downstream _ _ _ _ _ hd he | routing _ _ _ hd he | movSwapPtr _ _ hd he =>
    clear hd
    revert he e
    decide
  | ptrInvalid _ _ _ he | other he =>
    revert he e
    decide
  | _ => decide

/-- **Agreement of `is_swap` and the marks.** The bit of a router is set exactly when a flit in its
input channels is marked, no other flit is, and the assertions about them never fail. -/
theorem routed_agreement (hi : P.interswap = true) (h0 : P.noIsSwap = 0) (h : Reachable P s) :
    (∀ r < P.numRouters,
      ((s.router r).isSwap = true ↔ routedCount P s r = 1) ∧
      ((s.router r).isSwap = false ↔ routedCount P s r = 0)) ∧
    (∀ b, (∀ l v, b ≠ .inputVc l v) → ∀ f ∈ s.buf b, f.routedSwap = false) ∧
    (∀ e ∈ s.swapLog, e.2.2.routedSwap = false) ∧
    ∀ l e, Enabled P s l → exec P l s = .error e →
      e ∉ [Fault.routedIsSwap, .enqueueRouted, .grantIsSwap, .grantSendRoutedSwap] := by
  have hind := (routedOk hi h0).and (routedContext hi h0)
  obtain ⟨hctx, hok⟩ := hind.reachable h
  refine ⟨fun r hr => ?_, fun b hb f hf => ?_, (handedBack_unmarked h0).reachable h,
    fun l e hen he => ?_⟩
  · rw [hok r hr]
    cases (s.router r).isSwap <;> simp
  · have hmark := hctx.unmarked b f hf
    cases b with
    | inputVc l v => exact absurd rfl (hb l v)
    | _ => exact hmark
  · obtain ⟨t, ⟨ht, ht'⟩, hf⟩ := hind.fault h hen he
    exact routed_faults ht ht' hf

/-- After the swap in the row, router `1` has the bit set and holds the marked flit. -/
theorem routed_agreement_quad :
    ∃ s, quadRun 28 = some s ∧ (s.router 1).isSwap = true ∧ routedCount .quad s 1 = 1 := by
  have hrun : (quadRun 28).map (fun s => (s.router 1).isSwap) = some true := by decide +kernel
  obtain ⟨s, hs, hbit⟩ := Option.map_eq_some_iff.mp hrun
  have hagree := (routed_agreement (P := .quad) rfl rfl (quadRun_reachable hs)).1 1 (by decide)
  exact ⟨s, hs, hbit, hagree.1.mp hbit⟩

end NocSwap
