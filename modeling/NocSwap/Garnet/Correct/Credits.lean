import NocSwap.Garnet.Correct.Conservation

/-!
# Credits and the state of channels

A channel that its sender takes for active has one token: its flit, wherever that is, or the credit
that frees it.
-/

namespace NocSwap

open Ledger Function List

variable {P : Params} {s s' : Net}

/-! ### Tokens -/

/-- Whether a flit is a token of channel `v` of link `l`: on the link, in the channel, in a crossbar
on its way to it, or stalled behind it. -/
def tokenWeight (P : Params) (l : Link) (v : Nat) : Buf → Flit → Nat
  | .niOutVc .., _ => 0
  | .srcQueue l', f | .linkBuffer l', f => if l' = l ∧ f.vc = v then 1 else 0
  | .inputVc l' v', _ => if l' = l ∧ v' = v then 1 else 0
  | .switchBuffer r _, f =>
    if (P.outports r)[f.outport]?.map (fun p => p.link) = some l ∧ f.vc = v then 1 else 0
  | .stallQueue n, f => if .extOut n = l ∧ f.vc = v then 1 else 0

theorem weight_inputVc (l l' : Link) (v v' : Nat) (fs : List Flit) :
    weight (tokenWeight P l v) (.inputVc l' v') fs = if l' = l ∧ v' = v then fs.length else 0 := by
  induction fs with
  | nil => simp
  | cons f fs ih =>
    rw [weight_cons, ih, tokenWeight]
    split_ifs
    · rw [length_cons, add_comm]
    · rfl

def flitTokens (P : Params) (s : Net) (l : Link) (v : Nat) : Nat :=
  tally (places P) (tokenWeight P l v) s.buf

def creditCount (v : Nat) (cs : List Credit) : Nat := cs.countP fun c => c.vc = v

def creditTokens (s : Net) (l : Link) (v : Nat) : Nat :=
  creditCount v (s.credits (.queue l)) + creditCount v (s.credits (.link l))

def tokens (P : Params) (s : Net) (l : Link) (v : Nat) : Nat :=
  flitTokens P s l v + creditTokens s l v

def waiting (s : Net) : Link → Nat → Nat
  | .extIn n, v => (s.buf (.niOutVc n v)).length
  | _, _ => 0

theorem waiting_congr (h : ∀ n v, s'.buf (.niOutVc n v) = s.buf (.niOutVc n v)) (l : Link)
    (v : Nat) : waiting s' l v = waiting s l v := by
  cases l with
  | extIn n => exact congrArg List.length (h n v)
  | _ => rfl

theorem insertCredit_perm (c : Credit) (l : List Credit) : (insertCredit c l).Perm (c :: l) := by
  induction l with
  | nil => exact .refl _
  | cons g l ih =>
    unfold insertCredit
    split_ifs
    · exact .refl _
    · exact (ih.cons g).trans (.swap ..)

theorem insertCredit_ne_nil (c : Credit) (l : List Credit) : insertCredit c l ≠ [] :=
  fun h => by simpa [h] using (insertCredit_perm c l).length_eq

theorem creditCount_cons (v : Nat) (c : Credit) (cs : List Credit) :
    creditCount v (c :: cs) = creditCount v cs + if c.vc = v then 1 else 0 := by
  simp only [creditCount, countP_cons, decide_eq_true_eq]

theorem creditCount_insert (v : Nat) (c : Credit) (cs : List Credit) :
    creditCount v (insertCredit c cs) = creditCount v cs + if c.vc = v then 1 else 0 := by
  rw [← creditCount_cons]
  exact (insertCredit_perm c cs).countP_eq _

variable {k : Link} {c : Credit}

theorem creditTokens_put (hcred : s'.credits = update s.credits (.queue k)
      (insertCredit c (s.credits (.queue k)))) (l : Link) (v : Nat) :
    creditTokens s' l v = creditTokens s l v + if k = l ∧ c.vc = v then 1 else 0 := by
  unfold creditTokens
  rw [hcred, update_of_ne (a := CreditBuf.link l) (by simp)]
  rcases eq_or_ne k l with rfl | hne
  · rw [update_self, creditCount_insert]
    simp only [true_and]
    omega
  · have hqueue : CreditBuf.queue l ≠ .queue k := fun e => hne (CreditBuf.queue.inj e).symm
    rw [update_of_ne hqueue, if_neg fun h => hne h.1, Nat.add_zero]

theorem creditTokens_take {cs : List Credit} (hcred : s'.credits = update s.credits (.link k) cs)
    (hc : s.credits (.link k) = c :: cs) (l : Link) (v : Nat) :
    creditTokens s l v = creditTokens s' l v + if k = l ∧ c.vc = v then 1 else 0 := by
  unfold creditTokens
  rw [hcred, update_of_ne (a := CreditBuf.queue l) (by simp)]
  rcases eq_or_ne k l with rfl | hne
  · rw [update_self, hc, creditCount_cons]
    simp only [true_and]
    omega
  · have hlink : CreditBuf.link l ≠ .link k := fun e => hne (CreditBuf.link.inj e).symm
    rw [update_of_ne hlink, if_neg fun h => hne h.1, Nat.add_zero]

theorem creditTokens_link {c' : Credit} {cs : List Credit}
    (hcred : s'.credits = update (update s.credits (.queue k) cs) (.link k)
      (insertCredit c' (s.credits (.link k)))) (hc : s.credits (.queue k) = c :: cs)
    (hvc : c'.vc = c.vc) (l : Link) (v : Nat) : creditTokens s' l v = creditTokens s l v := by
  unfold creditTokens
  rw [hcred, update_of_ne (a := CreditBuf.queue l) (by simp)]
  rcases eq_or_ne k l with rfl | hne
  · rw [update_self, update_self, hc, creditCount_cons, creditCount_insert, hvc]
    omega
  · have hlink : CreditBuf.link l ≠ .link k := fun e => hne (CreditBuf.link.inj e).symm
    have hqueue : CreditBuf.queue l ≠ .queue k := fun e => hne (CreditBuf.queue.inj e).symm
    rw [update_of_ne hqueue, update_of_ne hlink, update_of_ne (by simp)]

structure ChannelOk (o : OutVcState) (max tokens wait : Nat) : Prop where
  max_eq : o.maxCreditCount = max
  credit : o.creditCount + tokens = max
  one : tokens + wait ≤ 1
  state : o.state = if tokens + wait = 0 then .idle else .active

namespace ChannelOk

variable {o : OutVcState} {max tokens wait : Nat}

theorem eq_zero (h : ChannelOk o max tokens wait) (hs : o.state = .idle) : tokens + wait = 0 := by
  by_contra hne
  rw [h.state, if_neg hne] at hs
  cases hs

theorem credited (h : ChannelOk o max (tokens + 1) wait) {c : Credit} (hc : c.isFreeSignal = true)
    (time : Nat) : ChannelOk (o.credited c time) max tokens wait := by
  have hcredit := h.credit
  have hone := h.one
  refine ⟨?_, ?_, by omega, ?_⟩
  all_goals simp only [OutVcState.credited, hc, if_true, OutVcState.setState]
  · exact h.max_eq
  · push_cast at hcredit
    omega
  · rw [if_pos (by omega)]

section

variable (h : ChannelOk o max tokens wait) (hs : o.state = .idle) (time : Nat)
include h hs

theorem allocated : ChannelOk (o.allocated time) max (tokens + 1) wait := by
  have hzero := h.eq_zero hs
  have hcredit := h.credit
  refine ⟨h.max_eq, ?_, by omega, ?_⟩
  · simp only [OutVcState.allocated, OutVcState.setState]
    push_cast
    omega
  · rw [if_neg (by omega)]
    rfl

theorem reserved : ChannelOk (o.setState .active time) max tokens (wait + 1) := by
  have hzero := h.eq_zero hs
  refine ⟨h.max_eq, h.credit, by omega, ?_⟩
  rw [if_neg (by omega)]
  rfl

end

theorem sent (h : ChannelOk o max tokens (wait + 1)) :
    ChannelOk { o with creditCount := o.creditCount - 1 } max (tokens + 1) wait := by
  have hcredit := h.credit
  have hone := h.one
  refine ⟨h.max_eq, ?_, by omega, ?_⟩
  · push_cast
    omega
  · rw [h.state, if_neg (by omega), if_neg (by omega)]

end ChannelOk

variable {f : Flit} {fs : List Flit}

theorem tokens_carry {l : Link} {v : Nat} {a b : Buf} {f' : Flit} {fs' : List Flit}
    (hbuf : s'.buf = update (update s.buf a fs) b fs')
    (hf : s.buf a = f :: fs) (hf' : fs'.Perm (f' :: s.buf b)) (ha : a ∈ places P)
    (hb : b ∈ places P) (hab : a ≠ b) (hcred : s'.credits = s.credits)
    (hw : tokenWeight P l v b f' = tokenWeight P l v a f) : tokens P s' l v = tokens P s l v := by
  have hmove := tally_move (w := tokenWeight P l v) ha hb hab (.of_eq hf) hf'
  unfold tokens flitTokens creditTokens
  rw [hbuf, hcred]
  omega

theorem tokens_return {l : Link} {v : Nat} {a : Buf}
    (hbuf : s'.buf = update s.buf a fs) (hf : (s.buf a).Perm (f :: fs))
    (ha : a ∈ places P) (hcred : s'.credits = update s.credits (.queue k)
      (insertCredit c (s.credits (.queue k))))
    (hw : tokenWeight P l v a f = if k = l ∧ c.vc = v then 1 else 0) :
    tokens P s' l v = tokens P s l v := by
  have htake := tally_take (w := tokenWeight P l v) ha hf
  have hcount := creditTokens_put hcred l v
  unfold tokens flitTokens
  rw [hbuf]
  omega

theorem headTail (P : Params) : Inductive P fun s => ∀ b, ∀ f ∈ s.buf b, f.type = .headTail :=
  static_inductive (φ := fun f => f.type = .headTail) fun _ _ _ _ _ _ _ => rfl

theorem Flit.isTail_of_headTail (h : f.type = .headTail) : f.isTail = true := by
  simp [Flit.isTail, h]

theorem free_update {cr : CreditBuf → List Credit} {b b' : CreditBuf} {l : List Credit}
    (h : ∀ b, ∀ c ∈ cr b, c.isFreeSignal = true) (hl : ∀ c ∈ l, c.isFreeSignal = true)
    (hc : c ∈ update cr b l b') : c.isFreeSignal = true := by
  rcases eq_or_ne b' b with rfl | hne
  · rw [update_self] at hc
    exact hl c hc
  · rw [update_of_ne hne] at hc
    exact h b' c hc

theorem free_insertCredit {c' : Credit} {l : List Credit} (hc : c.isFreeSignal = true)
    (hl : ∀ c ∈ l, c.isFreeSignal = true) (hc' : c' ∈ insertCredit c l) :
    c'.isFreeSignal = true := by
  rcases mem_cons.mp ((insertCredit_perm ..).mem_iff.mp hc') with rfl | hc'
  · exact hc
  · exact hl c' hc'

structure SendersOk (P : Params) (s : Net) : Prop where
  freeSignal : ∀ b, ∀ c ∈ s.credits b, c.isFreeSignal = true
  niVc : ∀ n v, ∀ f ∈ s.buf (.niOutVc n v), f.vc = v
  channel : ∀ l v, ChannelOk (s.outVc l v) (P.maxCredit v) (tokens P s l v) (waiting s l v)

namespace SendersOk

variable {v : Nat}

theorem length_le_one (h : SendersOk P s) {l : Link} (hl : l ∈ P.links)
    (hv : v < P.numVcs) : (s.buf (.inputVc l v)).length ≤ 1 := by
  have hplace : Buf.inputVc l v ∈ places P := mem_places.mpr ⟨hl, hv⟩
  have hle := weight_le_tally (w := tokenWeight P l v) (c := s.buf) hplace
  rw [weight_inputVc, if_pos ⟨rfl, rfl⟩] at hle
  have hone := (h.channel l v).one
  unfold tokens flitTokens at hone
  omega

variable {f : Flit} {fs : List Flit}

section

variable (h : SendersOk P s)
include h

theorem tail_eq_nil {l : Link} (hl : l ∈ P.links) (hv : v < P.numVcs)
    (hb : s.buf (.inputVc l v) = f :: fs) : fs = [] := by
  have hlen := h.length_le_one hl hv
  rw [hb, length_cons] at hlen
  exact eq_nil_of_length_eq_zero (by omega)

theorem keep (hout : s'.outVc = s.outVc) (hcred : ∀ b, ∀ c ∈ s'.credits b, c.isFreeSignal = true)
    (hni : ∀ n v, s'.buf (.niOutVc n v) = s.buf (.niOutVc n v))
    (htok : ∀ l v, tokens P s' l v = tokens P s l v) : SendersOk P s' where
  freeSignal := hcred
  niVc n v f hf := h.niVc n v f (hni n v ▸ hf)
  channel l v := by
    rw [hout, htok, waiting_congr hni]
    exact h.channel l v

theorem creditLink {k : Link} {c : Credit} {cs : List Credit} {time : Nat}
    (hb : s.credits (.queue k) = c :: cs) (hbuf : s'.buf = s.buf) (hout : s'.outVc = s.outVc)
    (hcred : s'.credits = update (update s.credits (.queue k) cs) (.link k)
      (insertCredit { c with time := time } (s.credits (.link k)))) : SendersOk P s' := by
  refine h.keep hout (fun b c' hc' => ?_) (fun _ _ => by rw [hbuf]) fun l v => ?_
  · have hfree : c.isFreeSignal = true := h.freeSignal _ c (hb ▸ mem_cons_self ..)
    have hrest : ∀ b, ∀ c' ∈ update s.credits (.queue k) cs b, c'.isFreeSignal = true :=
      fun _ _ => free_update h.freeSignal
        fun c' hc' => h.freeSignal _ c' (hb ▸ mem_cons_of_mem _ hc')
    have hput : ∀ c' ∈ insertCredit { c with time := time } (s.credits (.link k)),
        c'.isFreeSignal = true := fun _ => free_insertCredit hfree (h.freeSignal _)
    rw [hcred] at hc'
    exact free_update hrest hput hc'
  · unfold tokens flitTokens
    rw [hbuf, creditTokens_link hcred hb rfl]

theorem credit {k : Link} {c : Credit} {cs : List Credit}
    (hb : s.credits (.link k) = c :: cs) (hbuf : s'.buf = s.buf)
    (hcred : s'.credits = update s.credits (.link k) cs)
    (hout : s'.outVc = set2 s.outVc k c.vc ((s.outVc k c.vc).credited c s.now)) :
    SendersOk P s' where
  freeSignal _ _ hc := by
    rw [hcred] at hc
    exact free_update h.freeSignal
      (fun c' hc' => h.freeSignal _ c' (hb ▸ mem_cons_of_mem _ hc')) hc
  niVc := by
    rw [hbuf]
    exact h.niVc
  channel l v := by
    have htake := creditTokens_take hcred hb l v
    have hch := h.channel l v
    have htok : tokens P s l v = tokens P s' l v + if k = l ∧ c.vc = v then 1 else 0 := by
      unfold tokens flitTokens
      rw [hbuf, htake]
      omega
    rw [htok] at hch
    rw [waiting_congr (s := s) fun _ _ => by rw [hbuf], hout, set2_apply]
    by_cases hlv : k = l ∧ c.vc = v
    · obtain ⟨rfl, rfl⟩ := hlv
      rw [if_pos ⟨rfl, rfl⟩] at hch ⊢
      exact hch.credited (h.freeSignal _ c (hb ▸ mem_cons_self ..)) _
    · rw [if_neg hlv] at hch
      rw [if_neg fun e => hlv ⟨e.1.symm, e.2.symm⟩]
      exact hch

theorem grant (htail : ∀ b, ∀ f ∈ s.buf b, f.type = .headTail)
    {r i o w : Nat} {p op : Port} {x : RouterRegs}
    (hg : GrantAt P s r i o v w p op f fs x)
    (hbuf : s'.buf = update (update s.buf (.inputVc p.link v) fs)
      (.switchBuffer r i) (insertFlit (grantedFlit P s f o w op) (s.buf (.switchBuffer r i))))
    (hout : s'.outVc = set2 s.outVc op.link w ((s.outVc op.link w).allocated s.now))
    (hcred : s'.credits = update s.credits (.queue p.link)
      (insertCredit ⟨v, f.isTail, s.now⟩ (s.credits (.queue p.link)))) : SendersOk P s' where
  freeSignal _ _ hc := by
    rw [hcred] at hc
    have hf := htail _ f (hg.head ▸ mem_cons_self ..)
    exact free_update h.freeSignal
      (fun _ => free_insertCredit (f.isTail_of_headTail hf) (h.freeSignal _)) hc
  niVc n v f hf := by
    rw [hbuf, update_of_ne (by simp), update_of_ne (by simp)] at hf
    exact h.niVc n v f hf
  channel l' v' := by
    have hp := mem_of_getElem? hg.port
    have hmove := tally_move (w := tokenWeight P l' v')
      (inputVc_mem_places hg.router_lt hp hg.vc_lt) (switchBuffer_mem_places hg.router_lt hg.port)
      (by simp) (.of_eq hg.head) (insertFlit_perm (grantedFlit P s f o w op) (s.buf (.switchBuffer r i)))
    have hput : creditTokens s' l' v' =
        creditTokens s l' v' + if p.link = l' ∧ v = v' then 1 else 0 := creditTokens_put hcred l' v'
    have hin : tokenWeight P l' v' (.inputVc p.link v) f = if p.link = l' ∧ v = v' then 1 else 0 :=
      rfl
    have hsw : tokenWeight P l' v' (.switchBuffer r i) (grantedFlit P s f o w op) =
        if op.link = l' ∧ w = v' then 1 else 0 := by
      simp [tokenWeight, grantedFlit, hg.outport]
    have htok : tokens P s' l' v' = tokens P s l' v' + if op.link = l' ∧ w = v' then 1 else 0 := by
      unfold tokens flitTokens
      rw [hbuf, hput]
      omega
    have hwait : waiting s' l' v' = waiting s l' v' := waiting_congr (fun _ _ => by simp [hbuf]) ..
    have hch := h.channel l' v'
    rw [htok, hwait, hout, set2_apply]
    by_cases hlw : op.link = l' ∧ w = v'
    · obtain ⟨rfl, rfl⟩ := hlw
      rw [if_pos ⟨rfl, rfl⟩, if_pos ⟨rfl, rfl⟩]
      exact hch.allocated (selectFreeVc_eq_some hg.free).2 _
    · rw [if_neg hlw, if_neg fun e => hlw ⟨e.1.symm, e.2.symm⟩]
      exact hch

theorem create {n vnet vc dest : Nat} {m : Message}
    (hc : CreateAt P s n vnet vc dest m) : SendersOk P (s.createFlit P n vnet vc dest m) where
  freeSignal := h.freeSignal
  niVc n' v f hf := by
    rw [createFlit_buf] at hf
    rcases mem_update hf with hf | ⟨he, hf⟩
    · exact h.niVc n' v f hf
    · obtain ⟨rfl, rfl⟩ := Buf.niOutVc.inj he
      rcases mem_insertFlit.mp hf with rfl | hf
      · rfl
      · exact h.niVc _ _ f hf
  channel l v := by
    have hput := tally_put (w := tokenWeight P l v) (c := s.buf)
      (niOutVc_mem_places hc.node_lt hc.vc_lt) (insertFlit_perm (newFlit P s n vnet vc dest m) _)
    have htok : tokens P (s.createFlit P n vnet vc dest m) l v = tokens P s l v := by
      unfold tokens flitTokens
      rw [createFlit_buf, hput]
      rfl
    have hch := h.channel l v
    have hout : (s.createFlit P n vnet vc dest m).outVc = set2 s.outVc (.extIn n) vc
        ((s.outVc (.extIn n) vc).setState .active s.now) := rfl
    rw [htok, hout, set2_apply]
    by_cases hlv : l = .extIn n ∧ v = vc
    · obtain ⟨rfl, rfl⟩ := hlv
      rw [if_pos ⟨rfl, rfl⟩]
      have hwait : waiting (s.createFlit P n vnet v dest m) (.extIn n) v =
          waiting s (.extIn n) v + 1 := by
        simp only [waiting, createFlit_buf, update_self]
        exact (insertFlit_perm ..).length_eq
      rw [hwait]
      exact hch.reserved (of_decide_eq_true hc.idle).1 _
    · rw [if_neg hlv]
      have hwait : waiting (s.createFlit P n vnet vc dest m) l v = waiting s l v := by
        cases l with
        | extIn n' =>
          have hne : Buf.niOutVc n' v ≠ .niOutVc n vc := fun e => by
            obtain ⟨rfl, rfl⟩ := Buf.niOutVc.inj e
            exact hlv ⟨rfl, rfl⟩
          simp only [waiting, createFlit_buf, update_of_ne hne]
        | _ => rfl
      rw [hwait]
      exact hch

theorem send {n vc : Nat} (hn : n < P.numNodes)
    (hv : vc < P.numVcs) (hb : s.buf (.niOutVc n vc) = f :: fs)
    (hbuf : s'.buf = update (update s.buf (.niOutVc n vc) fs)
      (.srcQueue (.extIn n))
      (insertFlit { f with time := s.now + 1 } (s.buf (.srcQueue (.extIn n)))))
    (hout : s'.outVc = set2 s.outVc (.extIn n) vc { s.outVc (.extIn n) vc with
      creditCount := (s.outVc (.extIn n) vc).creditCount - 1 }) (hcred : s'.credits = s.credits) :
    SendersOk P s' where
  freeSignal := by
    rw [hcred]
    exact h.freeSignal
  niVc n' v g hg := by
    rw [hbuf] at hg
    rcases mem_transfer hb hg with hg | ⟨he, -⟩
    · exact h.niVc n' v g hg
    · cases he
  channel l v := by
    have hfvc : f.vc = vc := h.niVc n vc f (hb ▸ mem_cons_self ..)
    have hmove := tally_move (w := tokenWeight P l v) (niOutVc_mem_places hn hv)
      (mem_places.mpr (extIn_mem_links hn) : Buf.srcQueue (.extIn n) ∈ places P) (by simp) (.of_eq hb)
      (insertFlit_perm { f with time := s.now + 1 } (s.buf (.srcQueue (.extIn n))))
    have htok : tokens P s' l v = tokens P s l v + if .extIn n = l ∧ vc = v then 1 else 0 := by
      have hsrc : tokenWeight P l v (.srcQueue (.extIn n)) { f with time := s.now + 1 } =
          if .extIn n = l ∧ vc = v then 1 else 0 := by
        simp only [tokenWeight, hfvc]
      have hni : tokenWeight P l v (.niOutVc n vc) f = 0 := rfl
      unfold tokens flitTokens creditTokens
      rw [hbuf, hcred]
      omega
    have hch := h.channel l v
    rw [htok, hout, set2_apply]
    by_cases hlv : l = .extIn n ∧ v = vc
    · obtain ⟨rfl, rfl⟩ := hlv
      rw [if_pos ⟨rfl, rfl⟩, if_pos ⟨rfl, rfl⟩]
      have hwait : waiting s (.extIn n) v = waiting s' (.extIn n) v + 1 := by
        simp [waiting, hbuf, hb]
      rw [hwait] at hch
      exact hch.sent
    · rw [if_neg hlv, if_neg fun e => hlv ⟨e.1.symm, e.2.symm⟩]
      have hwait : waiting s' l v = waiting s l v := by
        cases l with
        | extIn n' =>
          have hne : Buf.niOutVc n' v ≠ .niOutVc n vc := fun e => by
            obtain ⟨rfl, rfl⟩ := Buf.niOutVc.inj e
            exact hlv ⟨rfl, rfl⟩
          simp [waiting, hbuf, update_of_ne hne]
        | _ => rfl
      rw [hwait]
      exact hch

theorem bailOut (r : Nat) : SendersOk P (s.clearRouted P r) :=
  h.keep rfl h.freeSignal (fun _ _ => rfl) fun l v => by
    have hw : ∀ b f, tokenWeight P l v b { f with routedSwap := false } = tokenWeight P l v b f :=
      fun b f => by cases b <;> rfl
    unfold tokens flitTokens
    rw [tally_clearRouted r s hw]
    rfl

theorem swap {u d : Nat} {p q : Port} {g : Flit} {gs : List Flit}
    {fOut gOut : Nat} (hs : SwapAt P s u d v p q f g fs gs fOut gOut)
    (hbuf : s'.buf = update
      (update s.buf (.inputVc p.link v) (swappedFlit P u g gOut v :: fs))
      (.inputVc q.link v) (swappedFlit P d { f with routedSwap := true } fOut v :: gs))
    (hout : s'.outVc = s.outVc) (hcred : s'.credits = s.credits) : SendersOk P s' := by
  refine h.keep hout (by rw [hcred]; exact h.freeSignal) (fun _ _ => by simp [hbuf]) fun l' v' => ?_
  obtain ⟨ha, hb, hab⟩ := hs.places
  have hex := tally_exchange (w := tokenWeight P l' v')
    (swappedFlit P d { f with routedSwap := true } fOut v) (swappedFlit P u g gOut v) ha hb hab
    hs.head hs.head'
  have hp : tokenWeight P l' v' (.inputVc p.link v) (swappedFlit P u g gOut v) =
      tokenWeight P l' v' (.inputVc p.link v) f := rfl
  have hq : tokenWeight P l' v' (.inputVc q.link v)
      (swappedFlit P d { f with routedSwap := true } fOut v) =
      tokenWeight P l' v' (.inputVc q.link v) g := rfl
  unfold tokens flitTokens creditTokens
  rw [hbuf, hcred]
  omega

end

end SendersOk

theorem sendersOk (P : Params) :
    InductiveUnder P (fun s => ∀ b, ∀ f ∈ s.buf b, f.type = .headTail) (SendersOk P) where
  init := by
    refine ⟨fun _ _ h => (nomatch h), fun _ _ _ h => (nomatch h), fun l v => ?_⟩
    have htok : tokens P (.init P) l v = 0 := by
      simp [tokens, flitTokens, tally, creditTokens, creditCount, Net.init]
    have hwait : waiting (.init P) l v = 0 := by cases l <;> rfl
    rw [htok, hwait]
    exact ⟨rfl, rfl, by omega, rfl⟩
  fire _ _ h := ⟨h.freeSignal, h.niVc, h.channel⟩
  tick _ h := ⟨h.freeSignal, h.niVc, h.channel⟩
  move s c s' _ htail h hm := by
    cases hm with
    | stats | sched | routerRegs | niRegs | ptr | clearSend =>
      exact ⟨h.freeSignal, h.niVc, h.channel⟩
    | link hl hb =>
      exact h.keep rfl h.freeSignal (fun _ _ => by simp) fun _ _ =>
        tokens_carry rfl hb (insertFlit_perm ..) (mem_places.mpr hl) (mem_places.mpr hl) (by simp)
          rfl rfl
    | creditLink _ hb => exact h.creditLink hb rfl rfl rfl
    | credit _ hb => exact h.credit hb rfl rfl rfl
    | arrive ha =>
      have hl := inport_mem_links ha.router_lt ha.port
      exact h.keep rfl h.freeSignal (fun _ _ => by simp) fun _ _ =>
        tokens_carry rfl ha.head (insertFlit_perm ..) (mem_places.mpr hl)
          (inputVc_mem_places ha.router_lt ha.port ha.vc_lt) (by simp) rfl rfl
    | swap _ hs => exact h.swap hs rfl rfl rfl
    | @bailOut u d =>
      have hset : SendersOk P ((s.setRouter u { s.router u with isSwap := false }).setRouter d
          { s.router d with isSwap := false }) := ⟨h.freeSignal, h.niVc, h.channel⟩
      exact (hset.bailOut u).bailOut d
    | grant hg => exact h.grant htail hg rfl rfl rfl
    | cross hr hi hb _ ho =>
      have hl := outport_mem_links hr (mem_of_getElem? ho)
      refine h.keep rfl h.freeSignal (fun _ _ => by simp) fun l v =>
        tokens_carry rfl hb (insertFlit_perm ..) (mem_places.mpr ⟨hr, hi⟩) (mem_places.mpr hl)
          (by simp) rfl ?_
      simp [tokenWeight, ho]
    | create hc => exact h.create hc
    | send hn hv hb => exact h.send hn hv hb rfl rfl rfl
    | @eject n f _ hn hb =>
      have hf := htail _ f (hb ▸ mem_cons_self ..)
      have hcred : ∀ c ∈ insertCredit ⟨f.vc, f.isTail, s.now⟩ (s.credits (.queue (.extOut n))),
          c.isFreeSignal = true :=
        fun _ => free_insertCredit (f.isTail_of_headTail hf) (h.freeSignal _)
      exact h.keep rfl (fun _ _ => free_update h.freeSignal hcred) (fun _ _ => by simp)
        fun _ _ => tokens_return rfl (.of_eq hb) (mem_places.mpr (extOut_mem_links hn)) rfl rfl
    | stall hn hb =>
      exact h.keep rfl h.freeSignal (fun _ _ => by simp) fun _ _ =>
        tokens_carry rfl hb (perm_append_singleton ..) (mem_places.mpr (extOut_mem_links hn))
          (mem_places.mpr hn) (by simp) rfl rfl
    | @unstall n f _ _ hn hb =>
      have hcred : ∀ c ∈ insertCredit ⟨f.vc, true, s.now⟩ (s.credits (.queue (.extOut n))),
          c.isFreeSignal = true := fun _ => free_insertCredit rfl (h.freeSignal _)
      exact h.keep rfl (fun _ _ => free_update h.freeSignal hcred) (fun _ _ => by simp) fun _ _ =>
        tokens_return rfl ((List.Perm.of_eq hb).trans perm_middle) (mem_places.mpr hn) rfl rfl

structure ReceiversOk (s : Net) : Prop where
  state : ∀ l v, (s.vc l v).state = if s.buf (.inputVc l v) = [] then .idle else .active
  time : ∀ l v, (s.vc l v).stateTime ≤ s.now

namespace ReceiversOk

theorem keep (h : ReceiversOk s) (hvc : s'.vc = s.vc) (hnow : s.now ≤ s'.now)
    (hin : ∀ l v, s'.buf (.inputVc l v) = [] ↔ s.buf (.inputVc l v) = []) : ReceiversOk s' where
  state l v := by
    rw [hvc, h.state l v]
    simp only [hin l v]
  time l v := by
    rw [hvc]
    exact (h.time l v).trans hnow

theorem update (h : ReceiversOk s) {l : Link} {v : Nat} {x : VcRegs}
    (hvc : s'.vc = set2 s.vc l v x) (hnow : s'.now = s.now) (hx : x.stateTime ≤ s.now)
    (hstate : x.state = if s'.buf (.inputVc l v) = [] then .idle else .active)
    (hin : ∀ l' v', ¬ (l' = l ∧ v' = v) → s'.buf (.inputVc l' v') = s.buf (.inputVc l' v')) :
    ReceiversOk s' where
  state l' v' := by
    by_cases hlv : l' = l ∧ v' = v
    · obtain ⟨rfl, rfl⟩ := hlv
      rw [hvc, set2_same]
      exact hstate
    · rw [hvc, set2_of_ne hlv, hin l' v' hlv]
      exact h.state l' v'
  time l' v' := by
    by_cases hlv : l' = l ∧ v' = v
    · obtain ⟨rfl, rfl⟩ := hlv
      rw [hvc, set2_same, hnow]
      exact hx
    · rw [hvc, set2_of_ne hlv, hnow]
      exact h.time l' v'

theorem clearRouted (h : ReceiversOk s) (r : Nat) : ReceiversOk (s.clearRouted P r) :=
  h.keep rfl (le_refl _) fun _ _ => clearRouted_eq_nil s r _

end ReceiversOk

theorem receiversOk (P : Params) : InductiveUnder P
    (fun s => (∀ b, ∀ f ∈ s.buf b, f.type = .headTail) ∧ SendersOk P s) ReceiversOk where
  init := ⟨fun _ _ => rfl, fun _ _ => le_refl 0⟩
  fire _ _ h := ⟨h.state, h.time⟩
  tick _ h := ⟨h.state, fun l v => Nat.le_succ_of_le (h.time l v)⟩
  move s c s' _ hI h hm := by
    obtain ⟨htail, hsend⟩ := hI
    cases hm with
    | stats | sched | routerRegs | niRegs | creditLink | credit | ptr | clearSend =>
      exact ⟨h.state, h.time⟩
    | link | cross | create | send | eject | stall | unstall =>
      exact h.keep rfl (le_refl _) fun _ _ => by simp
    | arrive ha =>
      refine h.update rfl rfl (le_refl _) ?_ fun l v hlv => ?_
      · simp only [update_self, VcRegs.setActive]
        rw [if_neg (insertFlit_ne_nil _ _)]
      · dsimp only
        rw [update_of_ne (by simpa using hlv), update_of_ne (by simp)]
    | swap _ hs => exact h.keep rfl (le_refl _) fun _ _ => exchange_eq_nil hs.head hs.head'
    | @bailOut u d =>
      have hset : ReceiversOk ((s.setRouter u { s.router u with isSwap := false }).setRouter d
          { s.router d with isSwap := false }) := ⟨h.state, h.time⟩
      exact (hset.clearRouted u).clearRouted d
    | @grant r i o v w p op f fs x hg =>
      have hl := inport_mem_links hg.router_lt (mem_of_getElem? hg.port)
      have hnil : fs = [] := hsend.tail_eq_nil hl hg.vc_lt hg.head
      have hf := htail _ f (hg.head ▸ mem_cons_self ..)
      refine h.update (if_pos (f.isTail_of_headTail hf)) rfl (le_refl _) ?_ fun l v hlv => ?_
      · simp [VcRegs.setIdle, hnil]
      · dsimp only
        rw [update_of_ne (by simp), update_of_ne (by simpa using hlv)]

theorem tokens_of_frame (h : SwapFrame s s') (l : Link) (v : Nat) :
    tokens P s' l v = tokens P s l v := by
  have hflits : flitTokens P s' l v = flitTokens P s l v := by
    refine Finset.sum_congr rfl fun b _ => ?_
    cases b with
    | inputVc l' v' => rw [weight_inputVc, weight_inputVc, h.length]
    | _ => rw [h.elsewhere _ fun _ _ => by simp]
  unfold tokens creditTokens
  rw [hflits, h.credits]

theorem SendersOk.empty_of_arriving (h : SendersOk P s) {r : Nat} {p : Port} (hr : r < P.numRouters)
    (hp : p ∈ P.inports r) (hb : s.buf (.linkBuffer p.link) = f :: fs) (hv : f.vc < P.numVcs) :
    s.buf (.inputVc p.link f.vc) = [] := by
  have hlink : Buf.linkBuffer p.link ∈ places P := mem_places.mpr (inport_mem_links hr hp)
  have hsum := add_le_tally (w := tokenWeight P p.link f.vc) (c := s.buf) hlink
    (inputVc_mem_places hr hp hv) (by simp)
  have hone := (h.channel p.link f.vc).one
  rw [hb, weight_cons, weight_inputVc, if_pos ⟨rfl, rfl⟩, tokenWeight, if_pos ⟨rfl, rfl⟩] at hsum
  unfold tokens flitTokens at hone
  exact eq_nil_of_length_eq_zero (by omega)

theorem maxCredit_pos (P : Params) (v : Nat) : 0 < P.maxCredit v := by
  unfold Params.maxCredit
  split_ifs
  · exact P.dataVc_pos
  · exact P.ctrlVc_pos

theorem credit_faults (hs : SendersOk P s) (hr : ReceiversOk s) {e : Fault} (h : FaultAt P s e) :
    e ∉ [Fault.incrementCredit, .decrementCredit, .vcNotIdle, .needStage] := by
  cases h with
  | @incrementCredit l c cs _ hb h =>
    have hch := hs.channel l c.vc
    have hcount : 1 ≤ tokens P s l c.vc := by
      unfold tokens creditTokens
      rw [hb, creditCount_cons, if_pos rfl]
      omega
    have hcredit := hch.credit
    have hmax := hch.max_eq
    omega
  | @decrementCredit l v _ _ hstate h =>
    have hch := hs.channel l v
    have hzero := hch.eq_zero hstate
    have hcredit := hch.credit
    have hpos := maxCredit_pos P v
    omega
  | vcNotIdle hlt hp hb hv h =>
    rw [hr.state, hs.empty_of_arriving hlt hp hb hv] at h
    exact absurd rfl h
  | needStage _ _ hb h =>
    rw [hr.state, hb] at h
    exact absurd ⟨rfl, hr.time _ _⟩ h
  | outportDir _ _ _ _ _ he => rcases he with rfl | rfl <;> decide
  | downstream _ _ _ _ _ hd he | routing _ _ _ hd he | movSwapPtr _ _ hd he =>
    clear hd
    revert he e
    decide
  | ptrInvalid _ _ _ he | other he =>
    revert he e
    decide
  | _ => decide

/-- **Credit and state agreement.** The credits of the sender and the tokens of a channel add up to
its size, the states of both ends agree with them, and the assertions about them never fail. -/
theorem credit_agreement (h : Reachable P s) : (∀ l ∈ P.links, ∀ v < P.numVcs,
      (s.outVc l v).creditCount + tokens P s l v = (s.outVc l v).maxCreditCount ∧
      tokens P s l v ≤ 1 ∧
      ((s.outVc l v).state = .active ↔ tokens P s l v = 1 ∨ waiting s l v = 1) ∧
      ((s.vc l v).state = .active ↔ (s.buf (.inputVc l v)).length = 1)) ∧
    (∀ l e, Enabled P s l → exec P l s = .error e →
      e ∉ [Fault.incrementCredit, .decrementCredit, .vcNotIdle, .needStage]) ∧
    ∀ r < P.numRouters, P.interswap = true → ∀ rnd t t', swapWakeup P r rnd t = .ok t' →
      t'.outVc = t.outVc ∧ t'.vc = t.vc ∧ t'.credits = t.credits ∧
        ∀ l v, tokens P t' l v = tokens P t l v ∧
          (t'.buf (.inputVc l v)).length = (t.buf (.inputVc l v)).length := by
  have hind := (receiversOk P).and ((sendersOk P).and (headTail P))
  obtain ⟨⟨-, hsend⟩, hrecv⟩ := hind.reachable h
  refine ⟨fun l hl v hv => ?_, fun l e hen he => ?_, fun r hr hi rnd t t' ht => ?_⟩
  · have hch := hsend.channel l v
    have hone := hch.one
    have hlen := hsend.length_le_one hl hv
    refine ⟨?_, by omega, ?_, ?_⟩
    · rw [hch.max_eq]
      exact hch.credit
    · rw [hch.state]
      split_ifs with hzero
      · simp only [false_iff]
        omega
      · simp only [true_iff]
        omega
    · rw [hrecv.state]
      split_ifs with hnil
      · simp [hnil]
      · have := length_pos_iff.mpr hnil
        simp only [true_iff]
        omega
  · obtain ⟨t, ⟨⟨-, ht⟩, ht'⟩, hf⟩ := hind.fault h hen he
    exact credit_faults ht ht' hf
  · have hframe := ((swapWakeup_outcome hr hi rnd t).of_ok ht).2
    exact ⟨hframe.outVc, hframe.vc, hframe.credits,
      fun l v => ⟨tokens_of_frame hframe l v, hframe.length l v⟩⟩

/-- The one credit of the link to router `1` is held by the flit on its way. -/
theorem credit_agreement_pair : ∃ s, run .pair pairRun (.init .pair) = some s ∧
      (s.outVc (.int 0 .East) 0).state = .active ∧
        (tokens .pair s (.int 0 .East) 0 = 1 ∨ waiting s (.int 0 .East) 0 = 1) := by
  have hrun : (run .pair pairRun (.init .pair)).map
      (fun s => (s.outVc (.int 0 .East) 0).state) = some .active := by decide +kernel
  obtain ⟨s, hs, hval⟩ := Option.map_eq_some_iff.mp hrun
  have hagree := (credit_agreement (reachable_of_run .init hs)).1 (.int 0 .East) (by decide) 0
    (by decide)
  exact ⟨s, hs, hval, hagree.2.2.1.mp hval⟩

end NocSwap
