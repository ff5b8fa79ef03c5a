import NocSwap.Garnet.Correct.Refine

/-!
# What the moves do to flits
-/

namespace NocSwap

open Function List

variable {P : Params} {s s' : Net}

/-! ### Flits at a place -/

theorem insertFlit_perm (f : Flit) (l : List Flit) : (insertFlit f l).Perm (f :: l) := by
  induction l with
  | nil => exact .refl _
  | cons g l ih =>
    unfold insertFlit
    split_ifs
    · exact .refl _
    · exact (ih.cons g).trans (.swap ..)

theorem mem_insertFlit {f g : Flit} {l : List Flit} : g ∈ insertFlit f l ↔ g = f ∨ g ∈ l := by
  rw [(insertFlit_perm f l).mem_iff, mem_cons]

theorem insertFlit_ne_nil (f : Flit) (l : List Flit) : insertFlit f l ≠ [] :=
  ne_nil_of_mem (mem_insertFlit.mpr (.inl rfl))

@[simp] theorem createFlit_buf (s : Net) (n vnet vc dest : Nat) (m : Message) :
    (s.createFlit P n vnet vc dest m).buf = update s.buf (.niOutVc n vc)
      (insertFlit (newFlit P s n vnet vc dest m) (s.buf (.niOutVc n vc))) := rfl

@[simp] theorem createFlit_ni (s : Net) (n vnet vc dest : Nat) (m : Message) :
    (s.createFlit P n vnet vc dest m).ni = update s.ni n { s.ni n with
      enqueueTime := update (s.ni n).enqueueTime vc s.now } := rfl

section Mem

variable {c : Buf → List Flit} {a b b' : Buf} {f f' g g' x : Flit} {l l' fs gs : List Flit}

theorem mem_update (h : x ∈ update c a l b') : x ∈ c b' ∨ (b' = a ∧ x ∈ l) := by
  rcases eq_or_ne b' a with rfl | hne
  · rw [update_self] at h
    exact .inr ⟨rfl, h⟩
  · rw [update_of_ne hne] at h
    exact .inl h

theorem mem_transfer (ha : c a = f :: fs)
    (hx : x ∈ update (update c a fs) b (insertFlit f' (c b)) b') :
    x ∈ c b' ∨ (b' = b ∧ x = f') := by
  have hrest : ∀ {y b₀}, y ∈ update c a fs b₀ → y ∈ c b₀ := fun {y b₀} hy => by
    rcases mem_update hy with h | ⟨rfl, h⟩
    · exact h
    · rw [ha]
      exact mem_cons_of_mem _ h
  rcases mem_update hx with h | ⟨rfl, h⟩
  · exact .inl (hrest h)
  · rcases mem_insertFlit.mp h with rfl | h
    · exact .inr ⟨rfl, rfl⟩
    · exact .inl h

theorem mem_exchange (ha : c a = f :: fs) (hb : c b = g :: gs)
    (hx : x ∈ update (update c a (g' :: fs)) b (f' :: gs) b') :
    x ∈ c b' ∨ (b' = a ∧ x = g') ∨ (b' = b ∧ x = f') := by
  rcases mem_update hx with h | ⟨rfl, h⟩
  · rcases mem_update h with h' | ⟨rfl, h'⟩
    · exact .inl h'
    · rcases mem_cons.mp h' with rfl | h'
      · exact .inr (.inl ⟨rfl, rfl⟩)
      · exact .inl (ha ▸ mem_cons_of_mem _ h')
  · rcases mem_cons.mp h with rfl | h
    · exact .inr (.inr ⟨rfl, rfl⟩)
    · exact .inl (hb ▸ mem_cons_of_mem _ h)

theorem exchange_eq_nil (ha : c a = f :: fs) (hb : c b = g :: gs) :
    update (update c a (g' :: fs)) b (f' :: gs) b' = [] ↔ c b' = [] := by
  rcases eq_or_ne b' b with rfl | hne
  · simp [hb]
  · rw [update_of_ne hne]
    rcases eq_or_ne b' a with rfl | hne'
    · simp [ha]
    · rw [update_of_ne hne']

end Mem

theorem mem_clearRouted {r : Nat} {b : Buf} {f : Flit} (h : f ∈ (s.clearRouted P r).buf b) :
    f ∈ s.buf b ∨ ∃ g ∈ s.buf b, f = { g with routedSwap := false } := by
  cases b with
  | inputVc l v =>
    simp only [Net.clearRouted] at h
    split_ifs at h with hc
    · cases hb : s.buf (.inputVc l v) with
      | nil =>
        rw [hb] at h
        cases h
      | cons g gs =>
        rw [hb] at h
        rcases mem_cons.mp h with rfl | h
        · exact .inr ⟨g, mem_cons_self .., rfl⟩
        · exact .inl (mem_cons_of_mem _ h)
    · exact .inl h
  | _ => exact .inl h

theorem clearRouted_eq_nil (s : Net) (r : Nat) (b : Buf) :
    (s.clearRouted P r).buf b = [] ↔ s.buf b = [] := by
  cases b with
  | inputVc l v =>
    simp only [Net.clearRouted]
    split_ifs
    · cases s.buf (.inputVc l v) <;> simp [unsetHead]
    · rfl
  | _ => rfl

/-- The flits at a place after a move from `s`: those that were there or that the move may have put
there. -/
inductive After (P : Params) (s : Net) : Buf → Flit → Prop
  | kept {b : Buf} {f : Flit} (h : f ∈ s.buf b) : After P s b f
  | linked {l : Link} {f : Flit} (hl : l ∈ P.links) (h : f ∈ s.buf (.srcQueue l)) :
      After P s (.linkBuffer l) { f with time := s.now + P.linkLatency l }
  | arrived {r outport : Nat} {p o : Port} {f : Flit} {fs : List Flit}
      (h : ArriveAt P s r p f fs outport o) :
      After P s (.inputVc p.link f.vc) (arrivedFlit P s r f outport o)
  | handedBack {u d v fOut gOut : Nat} {p q : Port} {f g : Flit} {fs gs : List Flit}
      (h : SwapAt P s u d v p q f g fs gs fOut gOut) :
      After P s (.inputVc p.link v) (swappedFlit P u g gOut v)
  | swapped {u d v fOut gOut : Nat} {p q : Port} {f g : Flit} {fs gs : List Flit}
      (h : SwapAt P s u d v p q f g fs gs fOut gOut) :
      After P s (.inputVc q.link v) (swappedFlit P d { f with routedSwap := true } fOut v)
  | cleared {b : Buf} {f : Flit} (h : f ∈ s.buf b) : After P s b { f with routedSwap := false }
  | granted {r i o v w : Nat} {p op : Port} {f : Flit} {fs : List Flit} {x : RouterRegs}
      (h : GrantAt P s r i o v w p op f fs x) :
      After P s (.switchBuffer r i) (grantedFlit P s f o w op)
  | crossed {r i : Nat} {f : Flit} {o : Port} (ho : (P.outports r)[f.outport]? = some o)
      (h : f ∈ s.buf (.switchBuffer r i)) :
      After P s (.srcQueue o.link) { f with stage := (.lt, s.now + 1), time := s.now + 1 }
  | created {n vnet vc dest : Nat} {m : Message} (h : CreateAt P s n vnet vc dest m) :
      After P s (.niOutVc n vc) (newFlit P s n vnet vc dest m)
  | sent {n vc : Nat} {f : Flit} (h : f ∈ s.buf (.niOutVc n vc)) :
      After P s (.srcQueue (.extIn n)) { f with time := s.now + 1 }
  | stalled {n : Nat} {f : Flit} (h : f ∈ s.buf (.linkBuffer (.extOut n))) :
      After P s (.stallQueue n) { f with dequeueTime := s.now }

theorem Move.after {c : Consumer} (hm : Move P s c s') {b : Buf} {f : Flit} (hf : f ∈ s'.buf b) :
    After P s b f := by
  have hhead : ∀ {b₀ g gs}, s.buf b₀ = g :: gs → g ∈ s.buf b₀ :=
    fun {b₀ g gs} h => h ▸ mem_cons_self ..
  cases hm with
  | stats | sched | routerRegs | niRegs | creditLink | credit | ptr | clearSend => exact .kept hf
  | link hl hb =>
    rcases mem_transfer hb hf with h | ⟨rfl, rfl⟩
    · exact .kept h
    · exact .linked hl (hhead hb)
  | arrive ha =>
    rcases mem_transfer ha.head hf with h | ⟨rfl, rfl⟩
    · exact .kept h
    · exact .arrived ha
  | swap _ hs =>
    rcases mem_exchange hs.head hs.head' hf with h | ⟨rfl, rfl⟩ | ⟨rfl, rfl⟩
    · exact .kept h
    · exact .handedBack hs
    · exact .swapped hs
  | bailOut =>
    rcases mem_clearRouted hf with h | ⟨g, h, rfl⟩
    · rcases mem_clearRouted h with h' | ⟨g, h', rfl⟩
      · exact .kept h'
      · exact .cleared h'
    · rcases mem_clearRouted h with h' | ⟨g', h', rfl⟩
      · exact .cleared h'
      · exact After.cleared (f := g') h'
  | grant hg =>
    rcases mem_transfer hg.head hf with h | ⟨rfl, rfl⟩
    · exact .kept h
    · exact .granted hg
  | cross _ _ hb _ ho =>
    rcases mem_transfer hb hf with h | ⟨rfl, rfl⟩
    · exact .kept h
    · exact .crossed ho (hhead hb)
  | create hc =>
    rcases mem_update hf with h | ⟨rfl, h⟩
    · exact .kept h
    · rcases mem_insertFlit.mp h with rfl | h
      · exact .created hc
      · exact .kept h
  | send _ _ hb =>
    rcases mem_transfer hb hf with h | ⟨rfl, rfl⟩
    · exact .kept h
    · exact .sent (hhead hb)
  | eject _ hb =>
    rcases mem_update hf with h | ⟨rfl, h⟩
    · exact .kept h
    · exact .kept (hb ▸ mem_cons_of_mem _ h)
  | stall _ hb =>
    rcases mem_update hf with h | ⟨rfl, h⟩
    · rcases mem_update h with h' | ⟨rfl, h'⟩
      · exact .kept h'
      · exact .kept (hb ▸ mem_cons_of_mem _ h')
    · rcases mem_append.mp h with h | h
      · exact .kept h
      · rw [mem_singleton.mp h]
        exact .stalled (hhead hb)
  | unstall _ hb =>
    rcases mem_update hf with h | ⟨rfl, h⟩
    · exact .kept h
    · refine .kept ?_
      rw [hb, mem_append, mem_cons]
      exact (mem_append.mp h).imp_right .inr

theorem flits_inductive {I : Net → Prop} {φ : Buf → Flit → Prop}
    (h : ∀ s, I s → (∀ b, ∀ f ∈ s.buf b, φ b f) → ∀ b f, After P s b f → φ b f) :
    InductiveUnder P I fun s => ∀ b, ∀ f ∈ s.buf b, φ b f where
  init _ _ hf := nomatch hf
  fire _ _ h := h
  tick _ h := h
  move s _ _ _ hI hφ hm b f hf := h s hI hφ b f (hm.after hf)

def Flit.static (f : Flit) : Flit :=
  { f with
    vc := 0
    routedSwap := false
    route := { f.route with hopsTraversed := 0 }
    dequeueTime := 0
    time := 0
    outport := 0
    outportDir := .Empty
    stage := (.i, 0) }

theorem static_inductive {φ : Flit → Prop}
    (hnew : ∀ s n vnet vc dest m, CreateAt P s n vnet vc dest m →
      φ (newFlit P s n vnet vc dest m).static) :
    Inductive P fun s => ∀ b, ∀ f ∈ s.buf b, φ f.static := by
  have hhead : ∀ {s : Net} {b g gs}, s.buf b = g :: gs → g ∈ s.buf b :=
    fun {s b g gs} h => h ▸ mem_cons_self ..
  refine (flits_inductive (I := fun _ => True) (φ := fun _ f => φ f.static) ?_).alone
  intro s _ h b f haft
  cases haft with
  | kept hf | linked _ hf | cleared hf | crossed _ hf | sent hf | stalled hf => exact (h _ _ hf :)
  | arrived ha => exact (h _ _ (hhead ha.head) :)
  | handedBack hs => exact (h _ _ (hhead hs.head') :)
  | swapped hs => exact (h _ _ (hhead hs.head) :)
  | granted hg => exact (h _ _ (hhead hg.head) :)
  | created hc => exact hnew s _ _ _ _ _ hc

end NocSwap
