import NocSwap.Garnet.Correct.Delivery
import NocSwap.Garnet.Correct.Exchange
import NocSwap.Garnet.Correct.SwapRecord

/-!
# Hops

A step of the network is followed flit by flit: where it was, where it is, and by how many swaps. The
sum over a run is compared with `hops_traversed`.
-/

namespace NocSwap

open Function List Option

variable {P : Params} {s s' t : Net} {c : Consumer}

/-! ### The routers of a flit -/

def Buf.router? (P : Params) : Buf → Option Nat
  | .niOutVc _ _ => none
  | .srcQueue l | .linkBuffer l =>
    match P.creditConsumer l with
    | .router r => some r
    | .ni _ => none
  | .inputVc l _ =>
    match P.linkConsumer l with
    | .router r => some r
    | .ni _ => none
  | .switchBuffer r _ => some r
  | .stallQueue n => some (P.niRouter n)

def placeList (P : Params) : List Buf :=
  (List.range P.numNodes).flatMap (fun n => (List.range P.numVcs).map (.niOutVc n)) ++
  P.links.map .srcQueue ++ P.links.map .linkBuffer ++
  P.links.flatMap (fun l => (List.range P.numVcs).map (.inputVc l)) ++
  (List.range P.numRouters).flatMap (fun r =>
    (List.range (P.inports r).length).map (.switchBuffer r)) ++
  (List.range P.numNodes).map .stallQueue

def routerAt (P : Params) (s : Net) (u : Nat) : Option Nat :=
  ((placeList P).find? fun b => (s.buf b).any fun f => f.uid = u).bind (Buf.router? P)

def changed : Option Nat → Option Nat → Nat
  | some a, some b => if a = b then 0 else 1
  | _, _ => 0

def routerMoves (P : Params) (u : Nat) : List (Net × Label) → Net → Nat
  | [], _ => 0
  | (s, _) :: past, s' => routerMoves P u past s + changed (routerAt P s u) (routerAt P s' u)

def Names (e : Nat × Flit × Flit) (u : Nat) : Prop := e.2.1.uid = u ∨ e.2.2.uid = u

instance (e : Nat × Flit × Flit) (u : Nat) : Decidable (Names e u) :=
  inferInstanceAs (Decidable (_ ∨ _))

def swapsOf (u : Nat) (log : List (Nat × Flit × Flit)) : Nat := log.countP fun e => Names e u

variable {b : Buf}

theorem mem_placeList : b ∈ placeList P ↔ b ∈ places P := by
  rw [mem_places]
  cases b <;> simp [placeList]

variable {x y : Flit}

theorem Conserved.unique (h : Conserved P s) {b' : Buf} (hx : x ∈ s.buf b)
    (hy : y ∈ s.buf b') (he : x.uid = y.uid) : b = b' ∧ x = y := by
  obtain ⟨i, hi⟩ := mem_iff_getElem?.mp hx
  obtain ⟨j, hj⟩ := mem_iff_getElem?.mp hy
  obtain ⟨hlt, hcons⟩ := h.in_flight hx
  have hpos : (b, i) = (b', j) := (h.existsUnique hlt hcons).unique ⟨x, hi, rfl⟩ ⟨y, hj, he.symm⟩
  obtain ⟨rfl, rfl⟩ := Prod.mk.inj hpos
  exact ⟨rfl, some.inj (hi.symm.trans hj)⟩

theorem Conserved.absent (h : Conserved P s) {e : Nat × Flit} (he : e ∈ s.consumed) (b : Buf) (f : Flit)
    (hf : f ∈ s.buf b) : f.uid ≠ e.2.uid := by
  intro hu
  have hzero := (h.in_flight hf).2
  rw [consumedCount, countP_eq_zero] at hzero
  exact hzero e he (decide_eq_true hu.symm)

variable {f : Flit}

theorem routerAt_eq (h : Conserved P s) (hf : f ∈ s.buf b) : routerAt P s f.uid = b.router? P := by
  cases hfind : (placeList P).find? fun b => (s.buf b).any fun g => g.uid = f.uid with
  | none =>
    have hnone := List.find?_eq_none.mp hfind b (mem_placeList.mpr (h.mem_places hf))
    exact absurd (any_eq_true.mpr ⟨f, hf, decide_eq_true rfl⟩) hnone
  | some b' =>
    obtain ⟨g, hg, hu⟩ := any_eq_true.mp (List.find?_some hfind :)
    obtain ⟨rfl, -⟩ := h.unique hg hf (of_decide_eq_true hu)
    rw [routerAt, hfind]
    rfl

variable {u : Nat}

theorem routerAt_none (h : ∀ b, ∀ f ∈ s.buf b, f.uid ≠ u) : routerAt P s u = none := by
  have hfind : ((placeList P).find? fun b => (s.buf b).any fun g => g.uid = u) = none := by
    refine List.find?_eq_none.mpr fun b _ hany => ?_
    obtain ⟨g, hg, hu⟩ := any_eq_true.mp hany
    exact h b g hg (of_decide_eq_true hu)
  rw [routerAt, hfind]
  rfl

@[simp] theorem changed_self (o : Option Nat) : changed o o = 0 := by
  cases o with
  | none => rfl
  | some a => exact if_pos rfl

@[simp] theorem changed_none_left (o : Option Nat) : changed none o = 0 := by cases o <;> rfl

@[simp] theorem changed_none_right (o : Option Nat) : changed o none = 0 := by cases o <;> rfl

theorem changed_ne {a b : Nat} (h : a ≠ b) : changed (some a) (some b) = 1 := if_neg h

theorem swapsOf_append (u : Nat) (l l' : List (Nat × Flit × Flit)) :
    swapsOf u (l ++ l') = swapsOf u l + swapsOf u l' := countP_append

theorem swapsOf_eq_zero {l : List (Nat × Flit × Flit)} :
    swapsOf u l = 0 ↔ ∀ e ∈ l, ¬ Names e u := by
  simp [swapsOf]

variable {r : Nat} {p : Port}

theorem router?_inputVc (hr : r < P.numRouters) (hp : p ∈ P.inports r) (v : Nat) :
    (Buf.inputVc p.link v).router? P = some r := by
  simp only [Buf.router?, inport_consumer hr hp]

theorem router?_srcQueue {o : Port} (ho : o ∈ P.outports r) :
    (Buf.srcQueue o.link).router? P = some r := by
  simp only [Buf.router?, outport_driver ho]

/-- How `y` at `b₀` has become `x` at `b` by moves of `c` with `k` swaps. -/
inductive Passage (P : Params) (c : Consumer) (k : Nat) (b₀ : Buf) (y : Flit) (b : Buf) (x : Flit) : Prop
  | stayed (hk : k = 0) (hops : x.route.hopsTraversed = y.route.hopsTraversed)
      (router : b.router? P = b₀.router? P)
      (link : ∀ r l, c = .router r → b = .linkBuffer l → b₀ = b)
  | arrived {r : Nat} {p : Port} (hk : k = 0) (hc : c = .router r) (hb₀ : b₀ = .linkBuffer p.link)
      (hr : r < P.numRouters) (hp : p ∈ P.inports r)
      (hops : x.route.hopsTraversed = y.route.hopsTraversed + 1) (router : b.router? P = some r)
      (link : ∀ l, b ≠ .linkBuffer l)
  | swapped {r u d : Nat} (hk : k = 1) (hc : c = .router r)
      (hops : x.route.hopsTraversed = y.route.hopsTraversed) (router₀ : b₀.router? P = some u)
      (router : b.router? P = some d) (hne : u ≠ d) (link : ∀ l, b ≠ .linkBuffer l)

structure Several (c : Consumer) (k : Nat) (b₀ b : Buf) : Prop where
  router : ∃ r, c = .router r
  link : ∀ l, b ≠ .linkBuffer l
  swaps : 2 ≤ k ∨ 1 ≤ k ∧ ∃ l, b₀ = .linkBuffer l

/-- What `c` has done to the flits between `s` and `s'`, `new` being its swaps. -/
structure Path (P : Params) (c : Consumer) (R : Nat → Buf → Flit → Buf → Flit → Prop) (s s' : Net)
    (new : List (Nat × Flit × Flit)) : Prop where
  log : s'.swapLog = new ++ s.swapLog
  created : s.created ≤ s'.created
  named : ∀ e ∈ new, (∃ r, c = .router r) ∧ ∀ u, Names e u → ∃ b, ∃ f ∈ s.buf b, f.uid = u
  flits : ∀ b, ∀ x ∈ s'.buf b, ((∃ n, c = .ni n) ∧ s.created ≤ x.uid ∧
      x.route.hopsTraversed = -1 ∧ b.router? P = none) ∨
    ∃ b₀, ∃ y ∈ s.buf b₀, x.static = y.static ∧ R (swapsOf x.uid new) b₀ y b x
  consumed : ∀ e ∈ s'.consumed, e ∈ s.consumed ∨ ((∃ n, c = .ni n) ∧ ∃ b₀, ∃ y ∈ s.buf b₀,
    e.2.static = y.static ∧ e.2.route.hopsTraversed = y.route.hopsTraversed ∧
      b₀.router? P = some (P.niRouter e.1))

theorem Flit.uid_of_static (h : x.static = y.static) : x.uid = y.uid := by
  show x.static.uid = y.static.uid
  rw [h]

theorem Passage.refl (b : Buf) (f : Flit) : Passage P c 0 b f b f := .stayed rfl rfl rfl fun _ _ _ _ => rfl

theorem Path.same (hbuf : s'.buf = s.buf) (hlog : s'.swapLog = s.swapLog)
    (hcons : s'.consumed = s.consumed) (hcr : s'.created = s.created) :
    Path P c (Passage P c) s s' [] where
  log := hlog
  created := hcr.ge
  named := forall_mem_nil _
  flits b x hx := .inr ⟨b, x, hbuf ▸ hx, rfl, .refl b x⟩
  consumed _ he := .inl (hcons ▸ he)

variable {fs : List Flit}

theorem Path.transfer {a : Buf} {f' : Flit} (ha : s.buf a = f :: fs)
    (hbuf : s'.buf = update (update s.buf a fs) b (insertFlit f' (s.buf b)))
    (hlog : s'.swapLog = s.swapLog) (hcons : s'.consumed = s.consumed)
    (hcr : s'.created = s.created) (hf : f'.static = f.static) (hhop : Passage P c 0 a f b f') :
    Path P c (Passage P c) s s' [] where
  log := hlog
  created := hcr.ge
  named := forall_mem_nil _
  flits b' x hx := by
    rw [hbuf] at hx
    rcases mem_transfer ha hx with h | ⟨rfl, rfl⟩
    · exact .inr ⟨b', x, h, rfl, .refl b' x⟩
    · exact .inr ⟨a, f, ha ▸ mem_cons_self .., hf, hhop⟩
  consumed _ he := .inl (hcons ▸ he)

variable {d v fOut gOut : Nat} {q : Port} {g : Flit} {gs : List Flit}

theorem SwapAt.routers (h : SwapAt P s u d v p q f g fs gs fOut gOut) :
    (Buf.inputVc p.link v).router? P = some u ∧ (Buf.inputVc q.link v).router? P = some d ∧ d ≠ u := by
  obtain ⟨hlt, hne⟩ := downstream_spec h.downstream_eq
  exact ⟨router?_inputVc h.router_lt (mem_of_getElem? h.ptr.port) v,
    router?_inputVc hlt (mem_of_getElem? h.facing) v, hne⟩

theorem Path.swap (h : SwapAt P s u d v p q f g fs gs fOut gOut) (hinv : Conserved P s')
    (hbuf : s'.buf = update
      (update s.buf (.inputVc p.link v) (swappedFlit P u g gOut v :: fs))
      (.inputVc q.link v) (swappedFlit P d { f with routedSwap := true } fOut v :: gs))
    (hlog : s'.swapLog = (s.now, f, g) :: s.swapLog) (hcons : s'.consumed = s.consumed)
    (hcr : s'.created = s.created) :
    Path P (.router u) (Passage P (.router u)) s s' [(s.now, f, g)] := by
  obtain ⟨hp, hq, hne⟩ := h.routers
  have hf : f ∈ s.buf (.inputVc p.link v) := h.head ▸ mem_cons_self ..
  have hg : g ∈ s.buf (.inputVc q.link v) := h.head' ▸ mem_cons_self ..
  refine ⟨hlog, hcr.ge, ?_, fun b x hx => .inr ?_, fun e he => .inl (hcons ▸ he)⟩
  · intro e he
    obtain rfl := mem_singleton.mp he
    refine ⟨⟨u, rfl⟩, fun w hw => hw.elim (fun hw => ⟨_, f, hf, hw⟩) fun hw => ⟨_, g, hg, hw⟩⟩
  have hmem : swappedFlit P d { f with routedSwap := true } fOut v ∈ s'.buf (.inputVc q.link v) := by
    rw [hbuf, update_self]
    exact mem_cons_self ..
  have hmem' : swappedFlit P u g gOut v ∈ s'.buf (.inputVc p.link v) := by
    rw [hbuf, update_of_ne h.places.2.2, update_self]
    exact mem_cons_self ..
  have hone (hn : Names (s.now, f, g) x.uid) : swapsOf x.uid [(s.now, f, g)] = 1 := by
    rw [swapsOf, countP_singleton, if_pos (decide_eq_true hn)]
  by_cases hxf : f.uid = x.uid
  · obtain ⟨rfl, rfl⟩ := hinv.unique hmem hx hxf
    exact ⟨_, f, hf, rfl, .swapped (hone (.inl hxf)) rfl rfl hp hq hne.symm fun l => nofun⟩
  by_cases hxg : g.uid = x.uid
  · obtain ⟨rfl, rfl⟩ := hinv.unique hmem' hx hxg
    exact ⟨_, g, hg, rfl, .swapped (hone (.inr hxg)) rfl rfl hq hp hne fun l => nofun⟩
  rw [hbuf] at hx
  rcases mem_exchange h.head h.head' hx with hk | ⟨-, rfl⟩ | ⟨-, rfl⟩
  · have hzero : swapsOf x.uid [(s.now, f, g)] = 0 :=
      swapsOf_eq_zero.mpr fun e he => mem_singleton.mp he ▸ fun hn => hn.elim hxf hxg
    exact ⟨b, x, hk, rfl, hzero ▸ .refl b x⟩
  · exact absurd rfl hxg
  · exact absurd rfl hxf

theorem Move.path (hinv : Conserved P s') (hm : Move P s c s') :
    ∃ new, Path P c (Passage P c) s s' new := by
  cases hm with
  | stats | sched | routerRegs | niRegs | creditLink | credit | ptr | clearSend =>
    exact ⟨[], .same rfl rfl rfl rfl⟩
  | link hl hb =>
    exact ⟨[], .transfer hb rfl rfl rfl rfl rfl (.stayed rfl rfl rfl fun _ _ h => nomatch h)⟩
  | arrive ha =>
    refine ⟨[], .transfer ha.head rfl rfl rfl rfl rfl ?_⟩
    exact .arrived rfl rfl rfl ha.router_lt ha.port rfl (router?_inputVc ha.router_lt ha.port _)
      fun l => nofun
  | swap _ hs => exact ⟨_, .swap hs hinv rfl rfl rfl rfl⟩
  | @bailOut u d =>
    refine ⟨[], rfl, le_refl _, forall_mem_nil _, fun b x hx => .inr ?_, fun e he => .inl he⟩
    have hsame {y : Flit} (hy : y ∈ s.buf b) (hst : x.static = y.static)
        (hops : x.route.hopsTraversed = y.route.hopsTraversed) :
        ∃ b₀, ∃ y ∈ s.buf b₀, x.static = y.static ∧ Passage P (.router u) (swapsOf x.uid []) b₀ y b x :=
      ⟨b, y, hy, hst, .stayed rfl hops rfl fun _ _ _ _ => rfl⟩
    rcases mem_clearRouted hx with h | ⟨g, h, rfl⟩
    · rcases mem_clearRouted h with h' | ⟨g, h', rfl⟩
      · exact hsame h' rfl rfl
      · exact hsame h' rfl rfl
    · rcases mem_clearRouted h with h' | ⟨g', h', rfl⟩
      · exact hsame h' rfl rfl
      · exact hsame h' rfl rfl
  | grant hg =>
    refine ⟨[], .transfer hg.head rfl rfl rfl rfl rfl ?_⟩
    exact .stayed rfl rfl (router?_inputVc hg.router_lt (mem_of_getElem? hg.port) _).symm
      fun _ _ _ h => nomatch h
  | cross hr hi hb _ ho =>
    refine ⟨[], .transfer hb rfl rfl rfl rfl rfl ?_⟩
    exact .stayed rfl rfl (router?_srcQueue (mem_of_getElem? ho)) fun _ _ _ h => nomatch h
  | @create n vnet vc dest m hc =>
    refine ⟨[], rfl, Nat.le_succ _, forall_mem_nil _, fun b x hx => ?_, fun e he => .inl he⟩
    rcases mem_update hx with h | ⟨rfl, h⟩
    · exact .inr ⟨b, x, h, rfl, .refl b x⟩
    · rcases mem_insertFlit.mp h with rfl | h
      · exact .inl ⟨⟨n, rfl⟩, le_refl _, rfl, rfl⟩
      · exact .inr ⟨_, x, h, rfl, .refl _ x⟩
  | send hn hv hb =>
    exact ⟨[], .transfer hb rfl rfl rfl rfl rfl (.stayed rfl rfl rfl fun _ _ _ h => nomatch h)⟩
  | @eject n f fs _ hb =>
    refine ⟨[], rfl, le_refl _, forall_mem_nil _, fun b x hx => .inr ⟨b, x, ?_, rfl, .refl b x⟩, ?_⟩
    · rcases mem_update hx with h | ⟨rfl, h⟩
      · exact h
      · exact hb ▸ mem_cons_of_mem _ h
    · intro e he
      rcases mem_cons.mp he with rfl | he
      · exact .inr ⟨⟨n, rfl⟩, .linkBuffer (.extOut n), f, hb ▸ mem_cons_self .., rfl, rfl, rfl⟩
      · exact .inl he
  | @stall n f fs _ hb =>
    refine ⟨[], rfl, le_refl _, forall_mem_nil _, fun b x hx => .inr ?_, fun e he => .inl he⟩
    rcases mem_update hx with h | ⟨rfl, h⟩
    · rcases mem_update h with h' | ⟨rfl, h'⟩
      · exact ⟨b, x, h', rfl, .refl b x⟩
      · exact ⟨_, x, hb ▸ mem_cons_of_mem _ h', rfl, .refl _ x⟩
    · rcases mem_append.mp h with h | h
      · exact ⟨_, x, h, rfl, .refl _ x⟩
      · obtain rfl := mem_singleton.mp h
        exact ⟨.linkBuffer (.extOut n), f, hb ▸ mem_cons_self .., rfl,
          .stayed rfl rfl rfl fun _ _ h => nomatch h⟩
  | @unstall n f fs gs _ hb =>
    refine ⟨[], rfl, le_refl _, forall_mem_nil _, fun b x hx => .inr ⟨b, x, ?_, rfl, .refl b x⟩, ?_⟩
    · rcases mem_update hx with h | ⟨rfl, h⟩
      · exact h
      · rw [hb, mem_append, mem_cons]
        exact (mem_append.mp h).imp_right .inr
    · intro e he
      rcases mem_cons.mp he with rfl | he
      · refine .inr ⟨⟨n, rfl⟩, .stallQueue n, f, ?_, rfl, rfl, rfl⟩
        rw [hb]
        exact mem_append_right _ (mem_cons_self ..)
      · exact .inl he

def Passages (P : Params) (c : Consumer) (k : Nat) (b₀ : Buf) (y : Flit) (b : Buf) (x : Flit) : Prop :=
  Passage P c k b₀ y b x ∨ Several c k b₀ b

variable {k : Nat}

theorem Passages.then {k' : Nat} {b₀ b₁ : Buf} {z : Flit} (h : Passages P c k b₀ y b₁ z)
    (h' : Passage P c k' b₁ z b x) : Passages P c (k' + k) b₀ y b x := by
  cases h' with
  | stayed hk' hops' router' link' =>
    -- what keeps a flit out of the link buffers goes on doing so
    have hlink {r : Nat} (hc : c = .router r) (h : ∀ l, b₁ ≠ .linkBuffer l) (l : Link) :
        b ≠ .linkBuffer l := fun hb => h l ((link' r l hc hb).trans hb)
    rcases h with (⟨hk, hops, router, link⟩ | ⟨hk, hc, hb₀, hr, hp, hops, router, link⟩ |
      ⟨hk, hc, hops, router₀, router, hne, link⟩) | ⟨⟨r, hc⟩, link, swaps⟩
    · refine .inl (.stayed (by omega) (hops'.trans hops) (router'.trans router) fun r l hc hb => ?_)
      have hb₁ := link' r l hc hb
      exact (link r l hc (hb₁.trans hb)).trans hb₁
    · exact .inl (.arrived (by omega) hc hb₀ hr hp (hops'.trans hops) (router'.trans router)
        (hlink hc link))
    · exact .inl (.swapped (by omega) hc (hops'.trans hops) router₀ (router'.trans router) hne
        (hlink hc link))
    · exact .inr ⟨⟨r, hc⟩, hlink hc link, by rwa [hk', Nat.zero_add]⟩
  | @arrived r p hk' hc hb₁ hr hp hops' router' link' =>
    rcases h with (⟨hk, hops, router, link⟩ | ⟨_, _, _, _, _, _, _, link⟩ |
      ⟨_, _, _, _, _, _, link⟩) | ⟨-, link, -⟩
    · exact .inl (.arrived (by omega) hc ((link r p.link hc hb₁).trans hb₁) hr hp (hops ▸ hops')
        router' link')
    all_goals exact absurd hb₁ (link p.link)
  | swapped hk' hc hops' router₀' router' hne link' =>
    rcases h with (⟨hk, hops, router, link⟩ | ⟨hk, _, hb₀, _, _, _, _, _⟩ | ⟨hk, _, _, _, _, _, _⟩) |
      ⟨-, -, swaps⟩
    · exact .inl (.swapped (by omega) hc (hops'.trans hops) (router ▸ router₀') router' hne link')
    · exact .inr ⟨⟨_, hc⟩, link', .inr ⟨by omega, _, hb₀⟩⟩
    · exact .inr ⟨⟨_, hc⟩, link', .inl (by omega)⟩
    · exact .inr ⟨⟨_, hc⟩, link', .inl (by omega)⟩

variable {new : List (Nat × Flit × Flit)}

variable {R : Nat → Buf → Flit → Buf → Flit → Prop}

theorem Path.mono {R' : Nat → Buf → Flit → Buf → Flit → Prop} (h : Path P c R s s' new)
    (hR : ∀ b₀ y b x, y ∈ s.buf b₀ → x.uid = y.uid → R (swapsOf x.uid new) b₀ y b x →
      R' (swapsOf x.uid new) b₀ y b x) : Path P c R' s s' new :=
  ⟨h.log, h.created, h.named, fun b x hx => (h.flits b x hx).imp_right fun ⟨b₀, y, hy, hst, hr⟩ =>
    ⟨b₀, y, hy, hst, hR b₀ y b x hy (Flit.uid_of_static hst) hr⟩, h.consumed⟩

theorem Path.then {new' : List (Nat × Flit × Flit)} (h : Path P c (Passages P c) s t new)
    (h' : Path P c (Passage P c) t s' new') : Path P c (Passages P c) s s' (new' ++ new) where
  log := by rw [h'.log, h.log, append_assoc]
  created := h.created.trans h'.created
  named e he := by
    rcases mem_append.mp he with he | he
    · obtain ⟨⟨r, rfl⟩, hn⟩ := h'.named e he
      refine ⟨⟨r, rfl⟩, fun u hu => ?_⟩
      obtain ⟨b₁, z, hz, rfl⟩ := hn u hu
      rcases h.flits b₁ z hz with ⟨⟨n, hc⟩, -⟩ | ⟨b₀, y, hy, hst, -⟩
      · nomatch hc
      · exact ⟨b₀, y, hy, (Flit.uid_of_static hst).symm⟩
    · exact h.named e he
  flits b x hx := by
    rcases h'.flits b x hx with ⟨hc, hu, hnew⟩ | ⟨b₁, z, hz, hst', hhop'⟩
    · exact .inl ⟨hc, h.created.trans hu, hnew⟩
    have huid := Flit.uid_of_static hst'
    rcases h.flits b₁ z hz with ⟨⟨n, rfl⟩, hu, hops, hr⟩ | ⟨b₀, y, hy, hst, hhop⟩
    · -- an interface makes no flit arrive and no swaps
      cases hhop' with
      | stayed _ hops' router' _ =>
        exact .inl ⟨⟨n, rfl⟩, huid ▸ hu, hops'.trans hops, router'.trans hr⟩
      | arrived _ hc | swapped _ hc => nomatch hc
    · refine .inr ⟨b₀, y, hy, hst'.trans hst, ?_⟩
      rw [swapsOf_append]
      rw [← huid] at hhop
      exact hhop.then hhop'
  consumed e he := by
    rcases h'.consumed e he with he | ⟨⟨n, rfl⟩, b₁, z, hz, hst', hops', hr'⟩
    · exact h.consumed e he
    rcases h.flits b₁ z hz with ⟨-, -, -, hr⟩ | ⟨b₀, y, hy, hst, hhop⟩
    · nomatch hr.symm.trans hr'
    rcases hhop with (⟨_, hops, router, _⟩ | ⟨_, hc⟩ | ⟨_, hc⟩) | ⟨⟨r, hc⟩, -⟩
    · exact .inr ⟨⟨n, rfl⟩, b₀, y, hy, hst'.trans hst, hops'.trans hops, router ▸ hr'⟩
    all_goals nomatch hc

theorem Moves.path (hc : c ∈ P.consumers) (hinv : Conserved P s) (hm : Moves P c s s') :
    ∃ new, Path P c (Passages P c) s s' new := by
  induction hm with
  | refl => exact ⟨[], (Path.same rfl rfl rfl rfl).mono fun _ _ _ _ _ _ h => .inl h⟩
  | @tail t s' ht hmove ih =>
    obtain ⟨new, h⟩ := ih
    have hinv' := (conserved P).moves hc hinv (ht.tail hmove)
    obtain ⟨new', h'⟩ := hmove.path hinv'
    exact ⟨_, h.then h'⟩

theorem Path.single (h : Path P c (Passages P c) s s' new)
    (hc : ∀ r, c ≠ .router r) : Path P c (Passage P c) s s' new :=
  h.mono fun _ _ _ _ _ _ hops => hops.resolve_right fun ⟨⟨r, hr⟩, _, _⟩ => hc r hr

theorem swapsOf_le_length (u : Nat) (l : List (Nat × Flit × Flit)) : swapsOf u l ≤ l.length :=
  countP_le_length

theorem routerWakeup_path (hr : r < P.numRouters) (hinv : Conserved P s) (rnd : Nat → Nat)
    (h : routerWakeup P r rnd s = .ok s') :
    ∃ new, Path P (.router r) (Passage P (.router r)) s s' new := by
  have hc : Consumer.router r ∈ P.consumers := mem_consumers.mpr hr
  unfold routerWakeup at h
  split_ifs at h with hi
  · obtain ⟨s₁, hs₁, h⟩ := bind_eq_ok.mp h
    obtain ⟨hm₁, hframe⟩ := (swapWakeup_outcome hr hi rnd s).of_ok hs₁
    have hm := ((pipelineWakeup_outcome hr rnd s₁).of_ok h).1
    obtain ⟨new₁, h₁⟩ := hm₁.path hc hinv
    obtain ⟨new, hpath⟩ := Moves.path hc hinv (hm₁.trans hm)
    have hlog : s'.swapLog = s₁.swapLog := congrArg Prod.snd ((pipelineWakeup_record ..).of_ok s' h)
    have happ : new ++ s.swapLog = new₁ ++ s.swapLog := by rw [← hpath.log, hlog, h₁.log]
    obtain rfl : new = new₁ := append_cancel_right happ
    have hlen : new.length ≤ 1 := by
      have hone := (swapWakeup_logged r rnd hs₁).1
      rw [h₁.log, length_append] at hone
      omega
    refine ⟨new, hpath.mono fun b₀ y b x hy huid hops => hops.resolve_right ?_⟩
    rintro ⟨-, -, hswaps⟩
    have hle := swapsOf_le_length x.uid new
    rcases hswaps with htwo | ⟨hswap, l, rfl⟩
    · omega
    -- the flit is on the link still when the swap has been made
    have hy₁ : y ∈ s₁.buf (.linkBuffer l) := by
      rw [hframe.elsewhere (.linkBuffer l) fun _ _ => nofun]
      exact hy
    rcases h₁.flits _ y hy₁ with ⟨⟨n, hn⟩, -⟩ | ⟨b₁, z, -, -, hhops⟩
    · nomatch hn
    rcases hhops with (⟨hk, _, _, _⟩ | ⟨_, _, _, _, _, _, _, link⟩ | ⟨_, _, _, _, _, _, link⟩) |
      ⟨-, link, -⟩
    · rw [huid] at hswap
      omega
    all_goals exact link l rfl
  · have hm := ((pipelineWakeup_outcome hr rnd s).of_ok h).1
    obtain ⟨new, hpath⟩ := hm.path hc hinv
    have hlog : s'.swapLog = s.swapLog := congrArg Prod.snd ((pipelineWakeup_record ..).of_ok s' h)
    have happ : new ++ s.swapLog = [] ++ s.swapLog := by rw [← hpath.log, hlog, nil_append]
    obtain rfl : new = [] := append_cancel_right happ
    refine ⟨[], hpath.mono fun _ _ _ x _ _ hops => hops.resolve_right ?_⟩
    rintro ⟨-, -, hswaps⟩
    have hzero : swapsOf x.uid [] = 0 := rfl
    omega

theorem Path.of_fire {c' : Consumer} (h : Path P c R (s.fire c') s' new) : Path P c R s s' new :=
  ⟨h.log, h.created, h.named, h.flits, h.consumed⟩

theorem exec_path {l : Label} (hinv : Conserved P s) (hen : Enabled P s l)
    (h : exec P l s = .ok s') : ∃ c new, Path P c (Passage P c) s s' new := by
  have hstep := (exec_outcome hen).of_ok h
  cases l with
  | tick =>
    obtain rfl := hstep
    exact ⟨.router 0, [], .same rfl rfl rfl rfl⟩
  | protocol n op =>
    obtain ⟨new, hpath⟩ := Moves.path (mem_consumers.mpr hen.1) hinv hstep
    exact ⟨.ni n, new, hpath.single fun _ => nofun⟩
  | wake c rnd =>
    have hfire : Conserved P (s.fire c) := (conserved P).fire s c hinv
    obtain ⟨new, hpath⟩ := Moves.path hen.1 hfire hstep.1
    cases c with
    | router r =>
      obtain ⟨new, hpath⟩ := routerWakeup_path (mem_consumers.mp hen.1) hfire rnd h
      exact ⟨_, new, hpath.of_fire⟩
    | ni n | link l | creditLink l => exact ⟨_, new, (hpath.single fun _ => nofun).of_fire⟩

def FromSource (P : Params) : Buf → Flit → Prop
  | .niOutVc n _, f | .srcQueue (.extIn n), f | .linkBuffer (.extIn n), f =>
    f.route.srcRouter = P.niRouter n
  | _, _ => True

theorem fromSource (P : Params) : Inductive P fun s => ∀ b, ∀ f ∈ s.buf b, FromSource P b f := by
  refine (flits_inductive (I := fun _ => True) ?_).alone
  intro s _ h b f haft
  cases haft with
  | kept hf => exact h _ _ hf
  | @linked l g _ hg =>
    cases l with
    | extIn n => exact (h (.srcQueue (.extIn n)) g hg :)
    | extOut n | int r d => trivial
  | @cleared b g hg =>
    have hold := h b g hg
    unfold FromSource at hold ⊢
    split <;> simp_all
  | crossed ho _ =>
    rcases mem_outports.mp (mem_of_getElem? ho) with ⟨n, -, -, rfl⟩ | ⟨d, v, -, rfl⟩ <;> trivial
  | created => rfl
  | @sent n vc g hg => exact (h (.niOutVc n vc) g hg :)
  | arrived | handedBack | swapped | granted | stalled => trivial

theorem consumed_destRouter (P : Params) : Inductive P fun s =>
    ((∀ b, ∀ f ∈ s.buf b, RouteOk P f.route) ∧ ∀ b, ∀ f ∈ s.buf b, BoundFor P b f) ∧
      ∀ e ∈ s.consumed, e.2.route.destRouter = P.niRouter e.1 := by
  refine InductiveUnder.and ⟨fun _ h => (nomatch h), fun _ _ h => h, fun _ h => h, ?_⟩
    ((boundFor P).and (routeOk P))
  intro s c s' _ hI h hm
  cases hm with
  | @eject n f fs _ hb =>
    refine forall_mem_cons.mpr ⟨?_, h⟩
    have hf : f ∈ s.buf (.linkBuffer (.extOut n)) := hb ▸ mem_cons_self ..
    have hn : f.route.destNi = n := hI.2 _ f hf
    exact hn ▸ (hI.1 _ f hf).destRouter
  | @unstall n f fs gs _ hb =>
    refine forall_mem_cons.mpr ⟨?_, h⟩
    have hf : f ∈ s.buf (.stallQueue n) := hb ▸ mem_append_right _ (mem_cons_self ..)
    have hn : f.route.destNi = n := hI.2 _ f hf
    exact hn ▸ (hI.1 _ f hf).destRouter
  | _ => exact h

theorem manhattan_self (P : Params) (r : Nat) : manhattan P r r = 0 := by
  simp [manhattan, offset]

theorem manhattan_comm (P : Params) (a b : Nat) : manhattan P a b = manhattan P b a := by
  simp only [manhattan, offset]
  omega

def Accounted (P : Params) (o : Option Nat) (f : Flit) (m k : Nat) : Prop :=
  match o with
  | none => f.route.hopsTraversed = -1 ∧ m = 0 ∧ k = 0
  | some r => (m : Int) = f.route.hopsTraversed + k ∧ (k = 0 → manhattan P r f.route.srcRouter ≤ m)

structure Counted (P : Params) (past : List (Net × Label)) (s : Net) : Prop where
  flits : ∀ b, ∀ f ∈ s.buf b,
    Accounted P (b.router? P) f (routerMoves P f.uid past s) (swapsOf f.uid s.swapLog)
  consumed : ∀ e ∈ s.consumed,
    Accounted P (some (P.niRouter e.1)) e.2 (routerMoves P e.2.uid past s) (swapsOf e.2.uid s.swapLog)
  fresh : ∀ u, s.created ≤ u → routerMoves P u past s = 0 ∧ swapsOf u s.swapLog = 0

variable {m : Nat}

theorem Accounted.congr {o : Option Nat} (h : Accounted P o y m k) (hst : x.static = y.static)
    (hops : x.route.hopsTraversed = y.route.hopsTraversed) : Accounted P o x m k := by
  have hsrc : x.static.route.srcRouter = y.static.route.srcRouter := by rw [hst]
  have hsrc : x.route.srcRouter = y.route.srcRouter := hsrc
  unfold Accounted at h ⊢
  rw [hops, hsrc]
  exact h

theorem Accounted.arrive (hp : p ∈ P.inports r) (hsrc : FromSource P (.linkBuffer p.link) y)
    (hst : x.static = y.static) (hops : x.route.hopsTraversed = y.route.hopsTraversed + 1)
    (h : Accounted P ((Buf.linkBuffer p.link).router? P) y m k) :
    Accounted P (some r) x (m + changed ((Buf.linkBuffer p.link).router? P) (some r)) k := by
  have hsame : x.static.route.srcRouter = y.static.route.srcRouter := by rw [hst]
  have hsame : x.route.srcRouter = y.route.srcRouter := hsame
  rcases mem_inports.mp hp with ⟨n, -, hn, rfl⟩ | ⟨d, v, hv, rfl⟩
  · -- into the network: the count starts at `-1`
    obtain ⟨hstart, rfl, rfl⟩ := h
    have hsrc : y.route.srcRouter = P.niRouter n := hsrc
    refine ⟨?_, fun _ => ?_⟩
    · rw [hops, hstart]
      rfl
    · rw [hsame, hsrc, hn, manhattan_self]
      exact Nat.zero_le _
  · obtain ⟨hcount, hdist⟩ := h
    have hone : changed (some v) (some r) = 1 := changed_ne (nbr_ne hv)
    refine ⟨?_, fun hk => ?_⟩
    · show ((m + changed (some v) (some r) : Nat) : Int) = _
      rw [hone, hops]
      omega
    · show manhattan P r _ ≤ m + changed (some v) (some r)
      have hnear := hdist hk
      have hhop := manhattan_hop hv y.route.srcRouter
      rw [hone, hsame]
      omega

variable {past : List (Net × Label)}

theorem Counted.step (hinv : Conserved P s) (hinv' : Conserved P s')
    (hsrc : ∀ b, ∀ f ∈ s.buf b, FromSource P b f) (h : Counted P past s)
    (hpath : Path P c (Passage P c) s s' new) (l : Label) : Counted P ((s, l) :: past) s' := by
  have hswaps (u : Nat) : swapsOf u s'.swapLog = swapsOf u new + swapsOf u s.swapLog := by
    rw [hpath.log, swapsOf_append]
  -- a flit that is not in the network before the step is not counted in it
  have hgone {u : Nat} (hu : ∀ b, ∀ f ∈ s.buf b, f.uid ≠ u) :
      routerMoves P u ((s, l) :: past) s' = routerMoves P u past s ∧
        swapsOf u s'.swapLog = swapsOf u s.swapLog := by
    have hzero : swapsOf u new = 0 := swapsOf_eq_zero.mpr fun e he hn => by
      obtain ⟨b, f, hf, hfu⟩ := (hpath.named e he).2 u hn
      exact hu b f hf hfu
    refine ⟨?_, by rw [hswaps, hzero, Nat.zero_add]⟩
    rw [routerMoves, routerAt_none hu, changed_none_left, Nat.add_zero]
  have hnew {u : Nat} (hu : s.created ≤ u) (b : Buf) (f : Flit) (hf : f ∈ s.buf b) : f.uid ≠ u := by
    have hlt := (hinv.in_flight hf).1
    omega
  refine ⟨fun b x hx => ?_, fun e he => ?_, fun u hu => ?_⟩
  · rcases hpath.flits b x hx with ⟨-, hu, hops, hr⟩ | ⟨b₀, y, hy, hst, hhop⟩
    · obtain ⟨hm, hk⟩ := hgone (hnew hu)
      obtain ⟨hm₀, hk₀⟩ := h.fresh x.uid hu
      rw [hr]
      exact ⟨hops, hm.trans hm₀, hk.trans hk₀⟩
    have huid := Flit.uid_of_static hst
    have hold := h.flits b₀ y hy
    rw [← huid] at hold
    rw [hswaps, routerMoves, routerAt_eq hinv' hx, huid, routerAt_eq hinv hy, ← huid]
    cases hhop with
    | stayed hk hops router =>
      rw [hk, router, changed_self, Nat.zero_add, Nat.add_zero]
      exact hold.congr hst hops
    | arrived hk _ hb₀ hr hp hops router =>
      subst hb₀
      rw [hk, router, Nat.zero_add]
      exact hold.arrive hp (hsrc _ y hy) hst hops
    | swapped hk _ hops router₀ router hne =>
      rw [router₀] at hold ⊢
      obtain ⟨hcount, -⟩ := hold
      rw [hk, router, changed_ne hne]
      refine ⟨?_, fun hzero => ?_⟩
      · rw [hops]
        omega
      · omega
  · rcases hpath.consumed e he with hold | ⟨⟨n, rfl⟩, b₀, y, hy, hst, hops, hr⟩
    · obtain ⟨hm, hk⟩ := hgone (hinv.absent hold)
      rw [hm, hk]
      exact h.consumed e hold
    have huid := Flit.uid_of_static hst
    have hold := h.flits b₀ y hy
    rw [hr, ← huid] at hold
    have hzero : swapsOf e.2.uid new = 0 := swapsOf_eq_zero.mpr fun e' he' => by
      obtain ⟨⟨r, hc⟩, -⟩ := hpath.named e' he'
      nomatch hc
    have hnone : routerAt P s' e.2.uid = none := routerAt_none (hinv'.absent he)
    rw [hswaps, hzero, routerMoves, hnone, changed_none_right, Nat.zero_add, Nat.add_zero]
    exact hold.congr hst hops
  · have hu₀ := hpath.created.trans hu
    obtain ⟨hm, hk⟩ := hgone (hnew hu₀)
    rw [hm, hk]
    exact h.fresh u hu₀

theorem trace_counted (h : Trace P past s) : Counted P past s := by
  induction h with
  | init => exact ⟨fun _ => forall_mem_nil _, forall_mem_nil _, fun _ _ => ⟨rfl, rfl⟩⟩
  | @step past s s' l htrace hen hex ih =>
    have hreach := htrace.reachable
    have hinv := (conserved P).reachable hreach
    obtain ⟨c, new, hpath⟩ := exec_path hinv hen hex
    exact ih.step hinv ((conserved P).step hen hinv hex) ((fromSource P).reachable hreach) hpath l

/-- **Hops of an ejected flit.** `hops_traversed` is the number of its moves, and not below the
distance, if and only if no swap has moved it. -/
theorem hops_traversed_iff {past : List (Net × Label)} (h : Trace P past s) {n : Nat} {f : Flit}
    (hf : (n, f) ∈ s.consumed) :
    (f.route.hopsTraversed = routerMoves P f.uid past s ∧
      (manhattan P f.route.srcRouter f.route.destRouter : Int) ≤ f.route.hopsTraversed) ↔
    swapsOf f.uid s.swapLog = 0 := by
  obtain ⟨hcount, hdist⟩ := (trace_counted h).consumed (n, f) hf
  have hdest : f.route.destRouter = P.niRouter n :=
    ((consumed_destRouter P).reachable h.reachable).2 (n, f) hf
  rw [manhattan_comm, hdest]
  dsimp only at hcount hdist
  constructor
  · rintro ⟨heq, -⟩
    omega
  · intro hzero
    have hle := hdist hzero
    omega

/-- In the row of four, a message from node `1` to node `0` that no swap moves. -/
theorem hops_traversed_quad : ∃ past s f, Trace .quad past s ∧ (0, f) ∈ s.consumed ∧
    f.route.hopsTraversed = routerMoves .quad f.uid past s ∧
    (manhattan .quad f.route.srcRouter f.route.destRouter : Int) ≤ f.route.hopsTraversed := by
  have hrun : ((sendTrace .quad [(1, 0, 1)] 30).bind fun x => x.2.consumed.head?.map fun e =>
      (x, e)).map (fun x => (x.2.1, swapsOf x.2.2.uid x.1.2.swapLog)) = some (0, 0) := by
    decide +kernel
  obtain ⟨⟨x, n, f⟩, hx, hview⟩ := map_eq_some_iff.mp hrun
  obtain ⟨rfl, hzero⟩ := Prod.mk.inj hview
  obtain ⟨y, hy, he⟩ := bind_eq_some_iff.mp hx
  obtain ⟨e, hhead, heq⟩ := map_eq_some_iff.mp he
  obtain ⟨rfl, rfl⟩ := Prod.mk.inj heq
  have htrace := trace_of_send _ hy
  have hf := mem_of_head? hhead
  obtain ⟨hmoves, hdist⟩ := (hops_traversed_iff htrace hf).mpr hzero
  exact ⟨y.1, y.2, f, htrace, hf, hmoves, hdist⟩

/-- A flit swapped by router `2` on its way from node `3` to `0` is ejected with two hops after
three moves. -/
theorem hops_traversed_short : ∃ past s f, Trace .quad past s ∧ (0, f) ∈ s.consumed ∧
    f.route.hopsTraversed = 2 ∧ routerMoves .quad f.uid past s = 3 ∧
    manhattan .quad f.route.srcRouter f.route.destRouter = 3 := by
  have hrun : ((sendTrace .quad [(3, 0, 1), (2, 0, 4)] 50).bind fun x => x.2.consumed.head?.map fun e =>
      (x, e)).map (fun x => (x.2.1, x.2.2.route.hopsTraversed, swapsOf x.2.2.uid x.1.2.swapLog,
        x.2.2.route.srcRouter, x.2.2.route.destRouter)) = some (0, 2, 1, 3, 0) := by
    decide +kernel
  obtain ⟨⟨x, n, f⟩, hx, hview⟩ := map_eq_some_iff.mp hrun
  obtain ⟨y, hy, he⟩ := bind_eq_some_iff.mp hx
  obtain ⟨e, hhead, heq⟩ := map_eq_some_iff.mp he
  obtain ⟨rfl, rfl⟩ := Prod.mk.inj heq
  simp only [Prod.mk.injEq] at hview
  obtain ⟨rfl, hops, hswaps, hsrc, hdest⟩ := hview
  have htrace := trace_of_send _ hy
  have hf := mem_of_head? hhead
  obtain ⟨hcount, -⟩ := (trace_counted htrace).consumed _ hf
  refine ⟨y.1, y.2, f, htrace, hf, hops, ?_, ?_⟩
  · dsimp only at hcount
    omega
  · rw [hsrc, hdest]
    decide

end NocSwap
