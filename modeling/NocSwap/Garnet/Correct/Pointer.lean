import NocSwap.Garnet.Correct.Flits
import NocSwap.Garnet.Correct.SwapPtr

/-!
# The swap pointers of a running network
-/

namespace NocSwap

open Function List

variable {P : Params} {s s' : Net}

/-! ### Pointers and buffers -/

variable {r i v : Nat} {buf : Buf → List Flit}

theorem ptrView_isEmpty : (ptrView P r buf).isEmpty i v = false ↔
      ∃ p, (P.inports r)[i]? = some p ∧ buf (.inputVc p.link v) ≠ [] := by
  dsimp only [ptrView]
  cases (P.inports r)[i]? <;> simp

variable {p : Port}

theorem ptrView_dirns (h : (P.inports r)[i]? = some p)
    (buf : Buf → List Flit) : (ptrView P r buf).dirns[i]? = some p.dirn := by
  simp [ptrView, h]

theorem empty_notMem_dirns (r : Nat) (buf : Buf → List Flit) :
    PortDirection.Empty ∉ (ptrView P r buf).dirns := by
  intro h
  obtain ⟨p, hp, hd⟩ := mem_map.mp h
  rcases inport_dirn hp with h | h <;> rw [hd] at h <;> cases h

theorem ok_mesh (hp : p ∈ P.inports r)
    (hm : p.dirn.isMesh = true) (hv : v < P.numVcs) (hb : buf (.inputVc p.link v) ≠ []) :
    SwapPtr.Ok (ptrView P r buf) ⟨true, Params.dirn2idx (P.inports r) p.dirn, v, p.dirn⟩ := by
  obtain ⟨i, hi⟩ := mem_iff_getElem?.mp hp
  have hdirn := ptrView_dirns hi buf
  rw [dirn2idx_eq (inports_pairwise P r) hi hm, SwapPtr.Ok, if_pos rfl]
  refine ⟨i, v, rfl, rfl, hv, ptrView_isEmpty.mpr ⟨p, hi, hb⟩, hdirn, fun hs => ?_⟩
  rw [hdirn] at hs
  exact mesh_ne_local hm (Option.some.inj hs.2)

variable {sp : SwapPtr}

theorem ok_of_occupied {buf' : Buf → List Flit} (h : SwapPtr.Ok (ptrView P r buf) sp)
    (hocc : ∀ p v, PtrAt P r sp p v → buf (.inputVc p.link v) ≠ [] → buf' (.inputVc p.link v) ≠ []) :
    SwapPtr.Ok (ptrView P r buf') sp := by
  unfold SwapPtr.Ok at h ⊢
  split_ifs at h ⊢
  · obtain ⟨i, v, hi, hv, hlt, hempty, hd, hsc⟩ := h
    obtain ⟨p, hp, hne⟩ := ptrView_isEmpty.mp hempty
    have hat : PtrAt P r sp p v := ⟨by omega, by rw [hi]; exact hp, hv, hlt⟩
    exact ⟨i, v, hi, hv, hlt, ptrView_isEmpty.mpr ⟨p, hp, hocc p v hat hne⟩, hd, hsc⟩
  · exact h

theorem movSwapPtr_ok {buf' : Buf → List Flit}
    (h : SwapPtr.Ok (ptrView P r buf) sp) (hpos : 0 ≤ sp.inport) :
    Outcome (SwapPtr.movSwapPtr (ptrView P r buf') sp) (SwapPtr.Ok (ptrView P r buf'))
      (fun _ => False) := by
  unfold SwapPtr.Ok at h
  split_ifs at h
  · obtain ⟨i, v, hi, hv, hvlt, hempty, hd, hsc⟩ := h
    have hlt : i < (ptrView P r buf').dirns.length := (List.getElem?_eq_some_iff.mp hd).1
    exact SwapPtr.movSwapPtr_outcome (by exact Nat.zero_lt_of_lt hvlt) (empty_notMem_dirns r buf') hi
      hlt hsc (by omega)
  · omega

def NamesVc : Buf → Flit → Prop
  | .inputVc _ v, f => f.vc = v
  | _, _ => True

theorem namesVc (P : Params) : Inductive P fun s => ∀ b, ∀ f ∈ s.buf b, NamesVc b f := by
  refine (flits_inductive (I := fun _ => True) ?_).alone
  intro s _ h b f haft
  cases haft with
  | kept hf => exact h b f hf
  | @cleared _ g hf =>
    have hg := h b g hf
    cases b <;> exact hg
  | _ => first | exact trivial | exact rfl

def PointersOk (P : Params) (s : Net) : Prop :=
  ∀ r < P.numRouters, SwapPtr.Ok (ptrView P r s.buf) (s.router r).swapPtr

theorem PointersOk.keep (h : PointersOk P s)
    (hptr : ∀ r, (s'.router r).swapPtr = (s.router r).swapPtr)
    (hocc : ∀ l v, s.buf (.inputVc l v) ≠ [] → s'.buf (.inputVc l v) ≠ []) : PointersOk P s' :=
  fun r hr => by
    rw [hptr r]
    exact ok_of_occupied (h r hr) fun p v _ => hocc p.link v

theorem setRouter_swapPtr {x : RouterRegs} (hx : x.swapPtr = (s.router r).swapPtr)
    (r' : Nat) : ((s.setRouter r x).router r').swapPtr = (s.router r').swapPtr := by
  rcases eq_or_ne r' r with rfl | hne
  · simpa using hx
  · simp [update_of_ne hne]

theorem swapRegs_swapPtr (s : Net) (u d : Nat) (f : Flit) (r : Nat) :
    (swapRegs P s u d f r).swapPtr = (s.router r).swapPtr := by
  unfold swapRegs
  rcases eq_or_ne r u with rfl | hu
  · rw [update_self]
  · rw [update_of_ne hu]
    split_ifs
    · rcases eq_or_ne r d with rfl | hd
      · rw [update_self]
      · rw [update_of_ne hd]
    · rfl

theorem PointersOk.set (h : PointersOk P s)
    (hptr : ∀ r' ≠ r, (s'.router r').swapPtr = (s.router r').swapPtr)
    (hr : r < P.numRouters → SwapPtr.Ok (ptrView P r s'.buf) (s'.router r).swapPtr)
    (hocc : ∀ l v, s.buf (.inputVc l v) ≠ [] → s'.buf (.inputVc l v) ≠ []) : PointersOk P s' :=
  fun r' hr' => by
    rcases eq_or_ne r' r with rfl | hne
    · exact hr hr'
    · rw [hptr r' hne]
      exact ok_of_occupied (h r' hr') fun p v _ => hocc p.link v

theorem PointersOk.arrive (h : PointersOk P s) {outport : Nat} {o : Port} {f : Flit}
    {fs : List Flit} (ha : ArriveAt P s r p f fs outport o)
    (hbuf : s'.buf = update (update s.buf (.linkBuffer p.link) fs)
      (.inputVc p.link f.vc)
      (insertFlit (arrivedFlit P s r f outport o) (s.buf (.inputVc p.link f.vc))))
    (hreg : s'.router = update s.router r { s.router r with
      swapPtr := arrivePtr P r p.dirn o.dirn f.vc (s.router r).swapPtr }) : PointersOk P s' := by
  have hfilled : s'.buf (.inputVc p.link f.vc) ≠ [] := by
    rw [hbuf, update_self]
    exact insertFlit_ne_nil _ _
  have hocc : ∀ l v, s.buf (.inputVc l v) ≠ [] → s'.buf (.inputVc l v) ≠ [] := by
    intro l v hne
    rcases eq_or_ne (Buf.inputVc l v) (.inputVc p.link f.vc) with he | hother
    · rw [he]
      exact hfilled
    · rwa [hbuf, update_of_ne hother, update_of_ne (by simp)]
  refine h.set (r := r) (fun r' hr' => by rw [hreg, update_of_ne hr']) (fun hr => ?_) hocc
  rw [hreg, update_self]
  have hold := ok_of_occupied (h r hr) fun p v _ => hocc p.link v
  unfold arrivePtr
  split_ifs with hv hm
  · exact hold
  · exact ok_mesh ha.port (Bool.and_eq_true _ _ ▸ hm).1 ha.vc_lt hfilled
  · exact hold

theorem PointersOk.grant (hi : P.interswap = true) (h : PointersOk P s) {o w : Nat}
    {op : Port} {f : Flit} {fs : List Flit} {x : RouterRegs}
    (hg : GrantAt P s r i o v w p op f fs x)
    (hbuf : s'.buf = update (update s.buf (.inputVc p.link v) fs)
      (.switchBuffer r i) (insertFlit (grantedFlit P s f o w op) (s.buf (.switchBuffer r i))))
    (hreg : s'.router = update s.router r x) : PointersOk P s' := by
  have hother : ∀ {l v'}, ¬ (l = p.link ∧ v' = v) →
      s'.buf (.inputVc l v') = s.buf (.inputVc l v') := fun {l v'} hne => by
    rw [hbuf, update_of_ne (by simp), update_of_ne (by simpa using hne)]
  intro r' hr'
  rcases eq_or_ne r' r with rfl | hne
  · rw [hreg, update_self]
    have hview : ptrView P r' s'.buf =
        ptrView P r' (update s.buf (.inputVc p.link v) fs) := by
      rw [hbuf]
      simp [ptrView]
    have hptr := hg.ptr
    unfold GrantPtr at hptr
    split_ifs at hptr with hat
    · have hpos : (s.router r').swapPtr.inport = i :=
        (of_decide_eq_true (Bool.and_eq_true _ _ ▸ hat).2).1
      rw [hview]
      exact (movSwapPtr_ok (h r' hr') (by omega)).of_ok hptr
    · rw [hptr]
      refine ok_of_occupied (h r' hr') fun q v' hq hocc => ?_
      rw [hother]
      · exact hocc
      · rintro ⟨hl, rfl⟩
        have hidx := port_idx_unique (inports_pairwise P r') hq.port hg.port (.inl hl)
        have h1 := hq.inport_nonneg
        have h2 := hq.vcid
        exact hat (by simp only [hi, Bool.true_and, decide_eq_true_eq]; omega)
  · rw [hreg, update_of_ne hne]
    refine ok_of_occupied (h r' hr') fun q v' hq hocc => ?_
    rw [hother]
    · exact hocc
    · rintro ⟨hl, -⟩
      exact inport_link_ne hg.router_lt hr' hne (mem_of_getElem? hg.port)
        (mem_of_getElem? hq.port) hl.symm

theorem PointersOk.ptr (h : PointersOk P s) (hvc : ∀ b, ∀ f ∈ s.buf b, NamesVc b f)
    (hr : r < P.numRouters) (hm : PtrMove P r s sp) : PointersOk P (s.setSwapPtr r sp) := by
  have hregs : (s.setSwapPtr r sp).router = update s.router r
      { s.router r with swapPtr := sp } := rfl
  refine h.set (r := r) (fun r' hr' => by rw [hregs, update_of_ne hr']) (fun _ => ?_)
    fun _ _ hne => hne
  rw [hregs, update_self]
  cases hm with
  | next hv hmov =>
    have hok := h r hr
    unfold SwapPtr.Ok at hok
    rw [if_pos hv] at hok
    obtain ⟨i, -, hi, -⟩ := hok
    exact (movSwapPtr_ok (h r hr) (by omega)).of_ok hmov
  | @make p vnet f fs _ hp hd hn hf =>
    -- the flit found in the base channel names it
    have hname : f.vc = vnet * P.vcsPerVnet :=
      hvc (.inputVc p.link _) f (hf ▸ mem_cons_self ..)
    have hlt : vnet * P.vcsPerVnet < P.numVcs := Nat.mul_lt_mul_of_pos_right hn P.vcs_pos
    refine ok_mesh hp hd (hname ▸ hlt) ?_
    show s.buf (.inputVc p.link f.vc) ≠ []
    rw [hname, hf]
    exact cons_ne_nil _ _

theorem pointersOk (hi : P.interswap = true) :
    InductiveUnder P (fun s => ∀ b, ∀ f ∈ s.buf b, NamesVc b f) (PointersOk P) where
  init _ _ := ⟨rfl, rfl⟩
  fire _ _ h := h
  tick _ h := h
  move s c s' _ hvc h hm := by
    cases hm with
    | stats | sched | niRegs | creditLink | credit => exact h
    | link | cross | create | send | eject | stall | unstall =>
      exact h.keep (fun _ => rfl) fun _ _ hne => by simpa using hne
    | routerRegs r x hk => exact h.keep (setRouter_swapPtr hk.swapPtr) fun _ _ hne => hne
    | clearSend r => exact h.keep (setRouter_swapPtr rfl) fun _ _ hne => hne
    | arrive ha => exact h.arrive ha rfl rfl
    | ptr hr _ hp => exact h.ptr hvc hr hp
    | swap _ hs =>
      exact h.keep (swapRegs_swapPtr s _ _ _) fun _ _ =>
        (exchange_eq_nil hs.head hs.head').not.mpr
    | @bailOut u d =>
      refine h.keep (fun r' => ?_) fun l v => ?_
      · have hu := setRouter_swapPtr (s := s) (r := u) (x := { s.router u with isSwap := false }) rfl
        have hd := setRouter_swapPtr (r := d) (x := { s.router d with isSwap := false }) (hu d).symm
        exact (hd r').trans (hu r')
      · rw [ne_eq, ne_eq, clearRouted_eq_nil, clearRouted_eq_nil]
        exact fun hne => hne
    | grant hg => exact h.grant hi hg rfl rfl

theorem PointersOk.ptrAt (h : PointersOk P s) (hr : r < P.numRouters)
    (hv : (s.router r).swapPtr.valid = true) :
    ∃ p v, PtrAt P r (s.router r).swapPtr p v ∧ s.buf (.inputVc p.link v) ≠ [] ∧
      (s.router r).swapPtr.inportDirn = p.dirn ∧
      (P.whichToSwap = .disableLocalSwap → p.dirn ≠ .Local) := by
  have hok := h r hr
  unfold SwapPtr.Ok at hok
  rw [if_pos hv] at hok
  obtain ⟨i, v, hi, hvc, hlt, hempty, hd, hsc⟩ := hok
  obtain ⟨p, hp, hne⟩ := ptrView_isEmpty.mp hempty
  have hdirn := ptrView_dirns hp s.buf
  refine ⟨p, v, ⟨by omega, by rw [hi]; exact hp, hvc, hlt⟩, hne, ?_, fun hw hl => ?_⟩
  · exact Option.some.inj (hd.symm.trans hdirn)
  · exact hsc ⟨hw, hl ▸ hdirn⟩

def swapPtrFaults : List Fault :=
  ptrFaults ++ movSwapPtrFaults ++ [.makeSwapPtrValid, .makeSwapPtrVcid, .makeSwapPtrLocal, .swapVcid]

theorem ptr_faults (hvc : ∀ b, ∀ f ∈ s.buf b, NamesVc b f) (h : PointersOk P s) {e : Fault}
    (hf : FaultAt P s e) : e ∉ swapPtrFaults := by
  cases hf with
  | ptrInvalid hr hv hat =>
    obtain ⟨p, v, hp, -, hd, -⟩ := h.ptrAt hr hv
    exact absurd hd (hat p v hp)
  | @makeSwapPtrVcid r hr hv hid =>
    have hok := h r hr
    unfold SwapPtr.Ok at hok
    rw [if_neg (by rw [hv]; exact Bool.false_ne_true)] at hok
    exact absurd hok.2 hid
  | @movSwapPtr r _ _ hr hpos he => exact ((movSwapPtr_ok (h r hr) hpos).of_error he).elim
  | @swapVcid r v p f fs _ _ _ hb hne =>
    exact absurd (hvc (.inputVc p.link v) f (hb ▸ mem_cons_self ..)) hne
  | outportDir _ _ _ _ _ he => rcases he with rfl | rfl <;> decide
  | downstream _ _ _ _ _ hd he | routing _ _ _ hd he =>
    clear hd
    revert he e
    decide
  | other he =>
    revert he e
    decide
  | _ => decide

/-- **Validity of the swap pointers.** A valid pointer names an occupied channel of a port it may
name, one that is not valid has numbers `-1`, and the assertions about it never fail. -/
theorem swap_ptr_valid (hi : P.interswap = true) (h : Reachable P s) : (∀ r < P.numRouters,
      ((s.router r).swapPtr.valid = true → ∃ p v f fs, PtrAt P r (s.router r).swapPtr p v ∧
        s.buf (.inputVc p.link v) = f :: fs ∧ f.vc = v ∧
        (s.router r).swapPtr.inportDirn = p.dirn ∧
        (P.whichToSwap = .disableLocalSwap → p.dirn ≠ .Local)) ∧
      ((s.router r).swapPtr.valid = false →
        (s.router r).swapPtr.inport = -1 ∧ (s.router r).swapPtr.vcid = -1)) ∧
    ∀ l e, Enabled P s l → exec P l s = .error e → e ∉ swapPtrFaults := by
  have hind := (pointersOk hi).and (namesVc P)
  obtain ⟨hvc, hptr⟩ := hind.reachable h
  refine ⟨fun r hr => ⟨fun hv => ?_, fun hv => ?_⟩, fun l e hen he => ?_⟩
  · obtain ⟨p, v, hat, hne, hd, hl⟩ := hptr.ptrAt hr hv
    obtain ⟨f, fs, hb⟩ := exists_cons_of_ne_nil hne
    exact ⟨p, v, f, fs, hat, hb, hvc (.inputVc p.link v) f (hb ▸ mem_cons_self ..), hd, hl⟩
  · have hok := hptr r hr
    unfold SwapPtr.Ok at hok
    rwa [if_neg (by rw [hv]; exact Bool.false_ne_true)] at hok
  · obtain ⟨t, ⟨ht, ht'⟩, hf⟩ := hind.fault h hen he
    exact ptr_faults ht ht' hf

/-- After the swap, the pointer of router `2` is valid and names the flit it was handed. -/
theorem swap_ptr_valid_quad : ∃ s, quadRun 28 = some s ∧ (s.router 2).swapPtr.valid = true ∧
      ∃ p v f fs, PtrAt .quad 2 (s.router 2).swapPtr p v ∧
        s.buf (.inputVc p.link v) = f :: fs ∧ f.vc = v := by
  have hrun : (quadRun 28).map (fun s => (s.router 2).swapPtr.valid) = some true := by
    decide +kernel
  obtain ⟨s, hs, hv⟩ := Option.map_eq_some_iff.mp hrun
  have hvalid := (swap_ptr_valid (P := .quad) rfl (quadRun_reachable hs)).1 2 (by decide)
  obtain ⟨p, v, f, fs, hat, hb, hvc, -⟩ := hvalid.1 hv
  exact ⟨s, hs, hv, p, v, f, fs, hat, hb, hvc⟩

end NocSwap
