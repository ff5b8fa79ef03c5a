import NocSwap.Garnet.Correct.Flits
import NocSwap.Lib.Ledger

/-!
# Flits are neither lost nor duplicated
-/

namespace NocSwap

open Ledger Function List

/-! ### Places -/

def places (P : Params) : Finset Buf :=
  (Finset.range P.numNodes ×ˢ Finset.range P.numVcs).image (fun x => .niOutVc x.1 x.2) ∪
  P.links.toFinset.image .srcQueue ∪ P.links.toFinset.image .linkBuffer ∪
  (P.links.toFinset ×ˢ Finset.range P.numVcs).image (fun x => .inputVc x.1 x.2) ∪
  (Finset.range P.numRouters).biUnion (fun r =>
    (Finset.range (P.inports r).length).image (.switchBuffer r)) ∪
  (Finset.range P.numNodes).image .stallQueue

variable {P : Params} {s s' : Net}

variable {b : Buf}

@[simp] theorem mem_places : b ∈ places P ↔ match b with
    | .niOutVc n v => n < P.numNodes ∧ v < P.numVcs
    | .srcQueue l | .linkBuffer l => l ∈ P.links
    | .inputVc l v => l ∈ P.links ∧ v < P.numVcs
    | .switchBuffer r i => r < P.numRouters ∧ i < (P.inports r).length
    | .stallQueue n => n < P.numNodes := by
  cases b <;> simp [places]

variable {n : Nat}

theorem extIn_mem_links (hn : n < P.numNodes) : Link.extIn n ∈ P.links :=
  mem_links.mpr (.inl ⟨n, hn, rfl⟩)

theorem extOut_mem_links (hn : n < P.numNodes) : Link.extOut n ∈ P.links :=
  mem_links.mpr (.inr (.inl ⟨n, hn, rfl⟩))

variable {v : Nat}

theorem niOutVc_mem_places (hn : n < P.numNodes) (hv : v < P.numVcs) :
    Buf.niOutVc n v ∈ places P := mem_places.mpr ⟨hn, hv⟩

variable {r : Nat} {p : Port}

theorem inputVc_mem_places (hr : r < P.numRouters) (hp : p ∈ P.inports r)
    (hv : v < P.numVcs) : Buf.inputVc p.link v ∈ places P :=
  mem_places.mpr ⟨inport_mem_links hr hp, hv⟩

theorem switchBuffer_mem_places {i : Nat} (hr : r < P.numRouters)
    (hp : (P.inports r)[i]? = some p) : Buf.switchBuffer r i ∈ places P :=
  mem_places.mpr ⟨hr, (List.getElem?_eq_some_iff.mp hp).1⟩

variable {u d fOut gOut : Nat} {q : Port} {f g : Flit} {fs gs : List Flit}

theorem SwapAt.places (hs : SwapAt P s u d v p q f g fs gs fOut gOut) :
    Buf.inputVc p.link v ∈ places P ∧ Buf.inputVc q.link v ∈ places P ∧
      Buf.inputVc p.link v ≠ .inputVc q.link v := by
  obtain ⟨hlt, hne⟩ := downstream_spec hs.downstream_eq
  have hp := mem_of_getElem? hs.ptr.port
  have hq := mem_of_getElem? hs.facing
  refine ⟨inputVc_mem_places hs.router_lt hp hs.ptr.vc_lt, inputVc_mem_places hlt hq hs.ptr.vc_lt,
    fun e => ?_⟩
  exact inport_link_ne hs.router_lt hlt hne hp hq (Buf.inputVc.inj e).1

theorem unsetHead_map {β : Type*} (g : Flit → β)
    (hg : ∀ f : Flit, g { f with routedSwap := false } = g f) (l : List Flit) :
    (unsetHead l).map g = l.map g := by
  cases l <;> simp [unsetHead, hg]

theorem tally_clearRouted {w : Buf → Flit → Nat} (r : Nat) (s : Net)
    (hw : ∀ b f, w b { f with routedSwap := false } = w b f) :
    tally (places P) w (s.clearRouted P r).buf = tally (places P) w s.buf := by
  refine Finset.sum_congr rfl fun b _ => ?_
  cases b with
  | inputVc l v =>
    simp only [Net.clearRouted]
    split_ifs
    · exact congrArg List.sum (unsetHead_map _ (hw _) _)
    · rfl
  | _ => rfl

abbrev uidWeight (u : Nat) : Buf → Flit → Nat := countWeight fun f => f.uid = u

def consumedCount (u : Nat) (l : List (Nat × Flit)) : Nat := l.countP fun e => e.2.uid = u

/-- Of every flit made there is one copy, in the network or consumed, and of no other any. -/
structure Conserved (P : Params) (s : Net) : Prop where
  count : ∀ u, tally (places P) (uidWeight u) s.buf + consumedCount u s.consumed =
    if u < s.created then 1 else 0
  outside : ∀ b, b ∉ places P → s.buf b = []

variable {a : Buf}

theorem update_outside {c : Buf → List Flit} (h : ∀ b, b ∉ places P → c b = []) (ha : a ∈ places P)
    (l : List Flit) (b : Buf) (hb : b ∉ places P) : update c a l b = [] := by
  have hne : b ≠ a := fun e => hb (e ▸ ha)
  rw [update_of_ne hne]
  exact h b hb

variable {f' : Flit} {l : List Flit}

section

variable (h : Conserved P s)
include h

theorem Conserved.transfer {l' : List Flit} (hbuf : s'.buf = update (update s.buf a l) b l')
    (hf : (s.buf a).Perm (f :: l)) (hf' : l'.Perm (f' :: s.buf b)) (hu : f'.uid = f.uid)
    (ha : a ∈ places P) (hb : b ∈ places P) (hab : a ≠ b)
    (hcons : s'.consumed = s.consumed) (hcr : s'.created = s.created) : Conserved P s' := by
  refine ⟨fun u => ?_, fun b' hb' => ?_⟩
  · have hmove := tally_move (w := uidWeight u) ha hb hab hf hf'
    have hw : uidWeight u b f' = uidWeight u a f := by simp only [countWeight, hu]
    rw [hbuf, hcons, hcr, ← h.count u]
    omega
  · rw [hbuf]
    exact update_outside (update_outside h.outside ha l) hb _ b' hb'

theorem Conserved.consume (hbuf : s'.buf = update s.buf a l)
    (hcons : s'.consumed = (n, f') :: s.consumed) (hf : (s.buf a).Perm (f :: l))
    (hu : f'.uid = f.uid) (ha : a ∈ places P) (hcr : s'.created = s.created) : Conserved P s' := by
  refine ⟨fun u => ?_, fun b' hb' => ?_⟩
  · have htake := tally_take (w := uidWeight u) ha hf
    have hcount : consumedCount u s'.consumed = consumedCount u s.consumed + uidWeight u a f := by
      simp only [hcons, consumedCount, countP_cons, countWeight, hu, decide_eq_true_eq]
    rw [hbuf, hcount, hcr, ← h.count u]
    omega
  · rw [hbuf]
    exact update_outside h.outside ha l b' hb'

theorem Conserved.create {vnet vc dest : Nat} {m : Message}
    (hc : CreateAt P s n vnet vc dest m) : Conserved P (s.createFlit P n vnet vc dest m) := by
  have hplace := niOutVc_mem_places hc.node_lt hc.vc_lt
  refine ⟨fun u => ?_, fun b' hb' => ?_⟩
  · have hput := tally_put (w := uidWeight u) (c := s.buf) hplace
      (insertFlit_perm (newFlit P s n vnet vc dest m) _)
    have hnew : uidWeight u (.niOutVc n vc) (newFlit P s n vnet vc dest m) =
        if s.created = u then 1 else 0 := rfl
    have hcreated : (s.createFlit P n vnet vc dest m).created = s.created + 1 := rfl
    have hconsumed : (s.createFlit P n vnet vc dest m).consumed = s.consumed := rfl
    have hcount := h.count u
    rw [createFlit_buf, hput, hcreated, hconsumed, hnew]
    split_ifs at hcount ⊢ <;> omega
  · rw [createFlit_buf]
    exact update_outside h.outside hplace _ b' hb'

theorem Conserved.swap (hs : SwapAt P s u d v p q f g fs gs fOut gOut) (hbuf : s'.buf = update
      (update s.buf (.inputVc p.link v) (swappedFlit P u g gOut v :: fs))
      (.inputVc q.link v) (swappedFlit P d { f with routedSwap := true } fOut v :: gs))
    (hcons : s'.consumed = s.consumed) (hcr : s'.created = s.created) : Conserved P s' := by
  obtain ⟨ha, hb, hab⟩ := hs.places
  refine ⟨fun u' => ?_, fun b' hb' => ?_⟩
  · have hex := tally_exchange (w := uidWeight u')
      (swappedFlit P d { f with routedSwap := true } fOut v) (swappedFlit P u g gOut v) ha hb hab
      hs.head hs.head'
    have hf : uidWeight u' (.inputVc q.link v) (swappedFlit P d { f with routedSwap := true } fOut v)
        = uidWeight u' (.inputVc p.link v) f := rfl
    have hg : uidWeight u' (.inputVc p.link v) (swappedFlit P u g gOut v) =
        uidWeight u' (.inputVc q.link v) g := rfl
    rw [hbuf, hcons, hcr, ← h.count u']
    omega
  · rw [hbuf]
    exact update_outside (update_outside h.outside ha _) hb _ b' hb'

theorem Conserved.clearRouted (r : Nat) : Conserved P (s.clearRouted P r) := by
  refine ⟨fun u => ?_, fun b' hb' => ?_⟩
  · rw [tally_clearRouted r s fun _ _ => rfl]
    exact h.count u
  · have hempty := h.outside b' hb'
    cases b' with
    | inputVc l v =>
      simp [Net.clearRouted, hempty, unsetHead]
    | _ => exact hempty

end

theorem conserved (P : Params) : Inductive P (Conserved P) where
  init := ⟨fun u => by simp [tally, Net.init, consumedCount], fun _ _ => rfl⟩
  fire _ _ h := ⟨h.count, h.outside⟩
  tick _ h := ⟨h.count, h.outside⟩
  move s c s' _ h hm := by
    cases hm with
    | stats | sched | routerRegs | niRegs | creditLink | credit | ptr | clearSend =>
      exact ⟨h.count, h.outside⟩
    | link hl hb =>
      exact h.transfer rfl (.of_eq hb) (insertFlit_perm ..) rfl (mem_places.mpr hl)
        (mem_places.mpr hl) (by simp) rfl rfl
    | arrive ha =>
      have hl := inport_mem_links ha.router_lt ha.port
      exact h.transfer rfl (.of_eq ha.head) (insertFlit_perm ..) rfl (mem_places.mpr hl)
        (inputVc_mem_places ha.router_lt ha.port ha.vc_lt) (by simp) rfl rfl
    | swap _ hs => exact h.swap hs rfl rfl rfl
    | @bailOut u d =>
      have hset : Conserved P ((s.setRouter u { s.router u with isSwap := false }).setRouter d
          { s.router d with isSwap := false }) := ⟨h.count, h.outside⟩
      exact (hset.clearRouted u).clearRouted d
    | grant hg =>
      have hp := mem_of_getElem? hg.port
      exact h.transfer rfl (.of_eq hg.head) (insertFlit_perm ..) rfl
        (inputVc_mem_places hg.router_lt hp hg.vc_lt) (switchBuffer_mem_places hg.router_lt hg.port)
        (by simp) rfl rfl
    | cross hr hi hb _ ho =>
      have hl := outport_mem_links hr (mem_of_getElem? ho)
      exact h.transfer rfl (.of_eq hb) (insertFlit_perm ..) rfl (mem_places.mpr ⟨hr, hi⟩)
        (mem_places.mpr hl) (by simp) rfl rfl
    | create hc => exact h.create hc
    | send hn hv hb =>
      exact h.transfer rfl (.of_eq hb) (insertFlit_perm ..) rfl (niOutVc_mem_places hn hv)
        (mem_places.mpr (extIn_mem_links hn)) (by simp) rfl rfl
    | eject hn hb =>
      exact h.consume rfl rfl (.of_eq hb) rfl (mem_places.mpr (extOut_mem_links hn)) rfl
    | stall hn hb =>
      exact h.transfer rfl (.of_eq hb) (perm_append_singleton ..) rfl
        (mem_places.mpr (extOut_mem_links hn)) (mem_places.mpr hn) (by simp) rfl rfl
    | unstall hn hb =>
      exact h.consume rfl rfl ((List.Perm.of_eq hb).trans perm_middle) rfl (mem_places.mpr hn) rfl

section

variable (h : Conserved P s)

include h

variable {b : Buf} {f : Flit}

theorem Conserved.mem_places (hf : f ∈ s.buf b) : b ∈ places P := by
  by_contra hb
  rw [h.outside b hb] at hf
  cases hf

theorem Conserved.in_flight (hf : f ∈ s.buf b) :
    f.uid < s.created ∧ consumedCount f.uid s.consumed = 0 := by
  have hcount := h.count f.uid
  have hone := le_tally (w := uidWeight f.uid) (h.mem_places hf) hf
  rw [show uidWeight f.uid b f = 1 from if_pos rfl] at hone
  split_ifs at hcount with hlt
  · exact ⟨hlt, by omega⟩
  · omega

theorem Conserved.existsUnique {u : Nat} (hu : u < s.created)
    (hcons : consumedCount u s.consumed = 0) :
    ∃! x : Buf × Nat, ∃ f, (s.buf x.1)[x.2]? = some f ∧ f.uid = u := by
  have hcount := h.count u
  rw [hcons, if_pos hu] at hcount
  obtain ⟨x, ⟨_, hx⟩, huniq⟩ := existsUnique_position (p := fun f : Flit => f.uid = u) hcount
  refine ⟨x, hx, fun y hy => huniq y ⟨?_, hy⟩⟩
  obtain ⟨f, hf, -⟩ := hy
  exact h.mem_places (mem_of_getElem? hf)

end

/-- **Flit conservation.** A flit that has been made stands at one position or has been consumed,
once. -/
theorem flit_conservation (h : Reachable P s) : (∀ u < s.created, consumedCount u s.consumed = 0 →
      ∃! x : Buf × Nat, ∃ f, (s.buf x.1)[x.2]? = some f ∧ f.uid = u) ∧
    (∀ u, consumedCount u s.consumed ≤ 1) ∧
    (∀ u, consumedCount u s.consumed = 1 → ∀ b, ∀ f ∈ s.buf b, f.uid ≠ u) ∧
    ∀ b, ∀ f ∈ s.buf b, b ∈ places P ∧ f.uid < s.created := by
  have hinv := (conserved P).reachable h
  refine ⟨fun u hu hcons => hinv.existsUnique hu hcons, fun u => ?_, fun u hcons b f hf hfu => ?_,
    fun b f hf => ⟨hinv.mem_places hf, (hinv.in_flight hf).1⟩⟩
  · have hcount := hinv.count u
    split_ifs at hcount <;> omega
  · have hzero := (hinv.in_flight hf).2
    rw [hfu, hcons] at hzero
    cases hzero

/-- After the swap in the row of four, each of its two flits is in one place. -/
theorem flit_conservation_quad :
    ∃ s, quadRun 28 = some s ∧ s.swapLog.length = 1 ∧ s.created = 2 ∧
      ∀ u < 2, ∃! x : Buf × Nat, ∃ f, (s.buf x.1)[x.2]? = some f ∧ f.uid = u := by
  have hrun : (quadRun 28).map (fun s => (s.swapLog.length, s.created, s.consumed.length)) =
      some (1, 2, 0) := by decide +kernel
  obtain ⟨s, hs, hval⟩ := Option.map_eq_some_iff.mp hrun
  simp only [Prod.mk.injEq, length_eq_zero_iff] at hval
  obtain ⟨hswap, hcr, hcons⟩ := hval
  exact ⟨s, hs, hswap, hcr, fun u hu => (flit_conservation (quadRun_reachable hs)).1 u (by omega)
    (by rw [hcons]; rfl)⟩

end NocSwap
