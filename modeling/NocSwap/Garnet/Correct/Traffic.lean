import NocSwap.Garnet.Correct.Frame
import NocSwap.Garnet.Correct.Wakeup

/-!
# The traffic of a router
-/

namespace NocSwap

open List Nat Function

variable {P : Params} {s s' : Net} {r : Nat}

/-! ### Places -/

def inputVcs : Set Buf := {b | ∃ l v, b = .inputVc l v}

def switchBuffers (P : Params) (r : Nat) : Set Buf :=
  {b | ∃ i < (P.inports r).length, b = .switchBuffer r i}

def linkBuffers (ports : List Port) : Set Buf := {b | ∃ p ∈ ports, b = .linkBuffer p.link}

def srcQueues (ports : List Port) : Set Buf := {b | ∃ p ∈ ports, b = .srcQueue p.link}

def creditQueues (ports : List Port) : Set CreditBuf := {b | ∃ p ∈ ports, b = .queue p.link}

def creditLinks (ports : List Port) : Set CreditBuf := {b | ∃ p ∈ ports, b = .link p.link}

theorem ports_nodup {ports : List Port} (h : ports.Pairwise PortsDiffer) :
    (ports.map fun p => p.link).Nodup :=
  pairwise_map.mpr (h.imp fun hd => hd.1)

theorem receiveFlit_quiet (r : Nat) (p : Port) (rnd : Nat) (f : Flit) (s : Net) :
    Outcome (receiveFlit P r p rnd f s) (Quiet inputVcs ∅ s) fun _ => True := by
  simp only [receiveFlit, outPort, outcome_do]
  refine fun _ _ _ => ?_
  refine Outcome.introOk fun outport _ => fun o _ => fun _ => ?_
  refine (makeSwapPtrValid_outcome ..).onOk fun t ht => ?_
  have hregs : Quiet inputVcs ∅ s t := by
    rw [ht]
    exact .regs rfl rfl rfl rfl rfl rfl
  have hinsert : ∀ f', Quiet inputVcs ∅ s (t.insert (.inputVc p.link f.incrementHops.vc) f') :=
    fun f' => hregs.trans (Quiet.setBuf (B := inputVcs) ⟨_, _, rfl⟩ ..)
  split_ifs
  · exact hinsert _
  · simp only [outcome_do]
    exact fun _ => (hinsert _).trans (.schedule ..)

theorem inputUnitWakeup_quiet (r : Nat) (p : Port) (rnd : Nat) (s : Net) :
    Outcome (inputUnitWakeup P r p rnd s)
      (fun s' => Quiet (inputVcs ∪ {.linkBuffer p.link}) ∅ s s' ∧
        s'.buf (.linkBuffer p.link) = dropReady s.now (s.buf (.linkBuffer p.link)))
      fun _ => True := by
  unfold inputUnitWakeup
  cases hb : s.buf (.linkBuffer p.link) with
  | nil => exact ⟨.rfl', hb⟩
  | cons f fs =>
    by_cases ht : f.time ≤ s.now
    · rw [dropReady_of_le ht]
      simp only [ht, if_true]
      refine (receiveFlit_quiet ..).imp fun s' h => ⟨?_, ?_⟩
      · exact (Quiet.setBuf (.inr rfl) s fs).trans (h.mono Set.subset_union_left (subset_refl _))
      · rw [h.buf _ (by simp [inputVcs])]
        exact update_self ..
    · rw [dropReady_of_not_le ht]
      simp only [ht, if_false]
      exact ⟨.rfl', hb⟩

theorem inputUnits_quiet (rnd : Nat → Nat) (s : Net) :
    Outcome ((P.inports r).zipIdx.foldlM (fun s e => inputUnitWakeup P r e.1 (rnd (e.2 + 2)) s) s)
      (fun s' => Quiet (inputVcs ∪ linkBuffers (P.inports r)) ∅ s s' ∧ ∀ p ∈ P.inports r,
        s'.buf (.linkBuffer p.link) = dropReady s.now (s.buf (.linkBuffer p.link)))
      fun _ => True := by
  have hkeys : (P.inports r).zipIdx.map (fun e => e.1.link) = (P.inports r).map fun p => p.link := by
    rw [← comp_def, ← map_map, zipIdx_map_fst]
  refine (Outcome.foldlM_each (I := Quiet (inputVcs ∪ linkBuffers (P.inports r)) ∅ s)
    (fun t l => t.buf (.linkBuffer l)) (fun e => e.1.link) (dropReady s.now) _
    (hkeys ▸ ports_nodup (inports_pairwise P r)) (fun e he t ht => ?_) s .rfl').imp
    fun s' h => ⟨h.1, fun p hp => ?_⟩
  · refine (inputUnitWakeup_quiet r e.1 _ t).imp fun t' h => ⟨?_, ht.now ▸ h.2, fun l hl => ?_⟩
    · refine ht.trans (h.1.mono (Set.union_subset_union_right _ ?_) (subset_refl _))
      exact Set.singleton_subset_iff.mpr ⟨e.1, fst_mem_of_mem_zipIdx he, rfl⟩
    · exact h.1.buf _ (by simpa [inputVcs] using hl)
  · have hmem : p.link ∈ (P.inports r).zipIdx.map (fun e => e.1.link) := by
      rw [hkeys]
      exact mem_map_of_mem hp
    rw [h.2 p.link, if_pos hmem]

theorem outputUnits_quiet (s : Net) :
    Outcome ((P.outports r).foldlM (fun s o => creditArrival o.link s) s)
      (fun s' => Quiet ∅ (creditLinks (P.outports r)) s s' ∧ ∀ o ∈ P.outports r,
        s'.credits (.link o.link) = dropReady s.now (s.credits (.link o.link))) fun _ => True := by
  refine (Outcome.foldlM_each (I := Quiet ∅ (creditLinks (P.outports r)) s)
    (fun t l => t.credits (.link l)) (fun o => o.link) (dropReady s.now) _
    (ports_nodup (outports_pairwise P r)) (fun o ho t ht => ?_) s .rfl').imp
    fun s' h => ⟨h.1, fun o ho => ?_⟩
  · refine (creditArrival_quiet o.link t).imp fun t' h => ⟨?_, ht.now ▸ h.2, fun l hl => ?_⟩
    · exact ht.trans (h.1.mono (subset_refl _) (Set.singleton_subset_iff.mpr ⟨o, ho, rfl⟩))
    · exact h.1.credits _ (by simpa using hl)
  · rw [h.2 o.link, if_pos (mem_map_of_mem ho)]

theorem arbitrateInports_quiet (s : Net) :
    Outcome (arbitrateInports P r s) (fun res => Quiet ∅ ∅ s res.1) fun _ => True := by
  refine Outcome.foldlM (I := fun acc : Net × Requests => Quiet ∅ ∅ s acc.1) _
    (fun e _ acc hacc => ?_) (s, []) .rfl'
  obtain ⟨t, reqs⟩ := acc
  rw [outcome_bind]
  refine Outcome.introOk fun request _ => ?_
  match request with
  | none => exact hacc
  | some (outport, invc) => exact hacc.trans (.regs rfl rfl rfl rfl rfl rfl)

/-- A grant of output port `o` to input port `i` has put a flit into the switch buffer and a credit
into the queue. -/
structure Granted (P : Params) (r i o : Nat) (p : Port) (s s' : Net) : Prop where
  quiet : Quiet (inputVcs ∪ {.switchBuffer r i}) {.queue p.link} s s'
  flit : ∃ f, f.outport = o ∧ f.time ≤ s.now ∧ f.isStage .st s.now = true ∧
    s'.buf (.switchBuffer r i) = insertFlit f (s.buf (.switchBuffer r i))
  credit : ReturnsOne p.link s s'

theorem grant_granted (htime : ∀ l v, ∀ f ∈ s.buf (.inputVc l v), f.time ≤ s.now) (i v o : Nat) :
    Outcome (grant P r i v o s)
      (fun s' => ∃ p, (P.inports r)[i]? = some p ∧ Granted P r i o p s s') fun _ => True := by
  simp only [grant, inVc, inPort, outPort, getVnet, outcome_do, Int.toNat_natCast]
  intro _ p hp _ op _ _ _ w _ f hf
  have hmem : f ∈ s.buf (.inputVc p.link v) := mem_of_mem_head? hf
  refine (clearRoutedSwap_outcome ..).onOk ?_
  rintro ⟨f', t⟩ ⟨-, ht⟩
  obtain ⟨rfl, rfl⟩ := Prod.mk.inj ht
  refine (moveGrantedPtr_outcome ..).onOk ?_
  rintro t ⟨sp, -, rfl⟩
  simp only [OutVcState.decrementCredit, outcome_do]
  refine fun _ => ?_
  refine (releaseVc_outcome ..).onOk ?_
  rintro t rfl
  have hvc : ∀ b, b ∉ inputVcs ∪ {.switchBuffer r i} →
      b ≠ .inputVc p.link v ∧ b ≠ .switchBuffer r i :=
    fun b hb => ⟨fun e => hb (.inl ⟨_, _, e⟩), fun e => hb (.inr e)⟩
  refine ⟨p, hp, ⟨⟨⟨rfl, fun b hb => ?_, fun b hb => ?_, fun c t ht hm => ?_⟩, fun _ => rfl, rfl⟩,
    ⟨grantedFlit P s f o w op, rfl, htime _ _ f hmem, ?_, ?_⟩, ⟨⟨v, f.isTail, s.now⟩, rfl, ?_, ?_⟩⟩⟩
  · simp [Net.insert, Net.setSwapPtr, (hvc b hb).1, (hvc b hb).2]
  · exact update_of_ne hb ..
  · exact (Quiet.schedule (B := ∅) (C := ∅) s (.creditLink p.link) (s.now + 1)).scheduled c t ht hm
  · simp [grantedFlit, Flit.isStage]
  · simp [Net.insert, Net.setSwapPtr, grantedFlit]
  · simp [Net.insert, Net.setSwapPtr, Flit.isTail]
  · exact Net.mem_scheduled _ _ (le_succ _)

/-- The switch buffers of router `r` hold one flit each at most, for different output ports below
`k`. -/
structure Switched (r k : Nat) (s : Net) : Prop where
  ready : ∀ i, ∀ f ∈ s.buf (.switchBuffer r i), f.time ≤ s.now ∧ f.isStage .st s.now = true ∧
    f.outport < k ∧ s.buf (.switchBuffer r i) = [f]
  distinct : ∀ i j f g, f ∈ s.buf (.switchBuffer r i) → g ∈ s.buf (.switchBuffer r j) →
    f.outport = g.outport → i = j

theorem Switched.put {k i : Nat} {t t' : Net} {f : Flit} (h : Switched r k t)
    (hnow : t'.now = t.now) (hself : t'.buf (.switchBuffer r i) = [f])
    (hother : ∀ j, j ≠ i → t'.buf (.switchBuffer r j) = t.buf (.switchBuffer r j))
    (hfo : f.outport = k) (hft : f.time ≤ t.now) (hfs : f.isStage .st t.now = true) :
    Switched r (k + 1) t' := by
  -- the flits put in before are for ports below `k`
  have hold : ∀ j g, j ≠ i → g ∈ t'.buf (.switchBuffer r j) → g.outport < k := fun j g hne hj =>
    (h.ready j g (hother j hne ▸ hj)).2.2.1
  have hnew : ∀ g, g ∈ t'.buf (.switchBuffer r i) → g = f := fun g hj => by
    rwa [hself, mem_singleton] at hj
  refine ⟨fun j g hj => ?_, fun j j' g g' hj hj' he => ?_⟩
  · rcases eq_or_ne j i with rfl | hne
    · rw [hnew g hj, hnow]
      exact ⟨hft, hfs, hfo ▸ lt_succ_self k, hself⟩
    · rw [hother j hne] at hj
      obtain ⟨h1, h2, h3, h4⟩ := h.ready j g hj
      rw [hnow, hother j hne]
      exact ⟨h1, h2, lt_succ_of_lt h3, h4⟩
  · rcases eq_or_ne j i with rfl | hne
    · by_contra hne'
      have hlt := hold j' g' (Ne.symm hne') hj'
      rw [← he, hnew g hj, hfo] at hlt
      exact lt_irrefl k hlt
    · rcases eq_or_ne j' i with rfl | hne'
      · have hlt := hold j g hne hj
        rw [he, hnew g' hj', hfo] at hlt
        exact absurd hlt (lt_irrefl k)
      · exact h.distinct j j' g g' (hother j hne ▸ hj) (hother j' hne' ▸ hj') he

/-- The state after the output ports below `k` have been given to requests of `reqs`. -/
structure Allocated (P : Params) (r : Nat) (reqs : Requests) (k : Nat) (s t : Net) : Prop where
  quiet : Quiet (inputVcs ∪ switchBuffers P r) (creditQueues (P.inports r)) s t
  switched : Switched r k t
  port : ∀ i p, (P.inports r)[i]? = some p →
    (t.buf (.switchBuffer r i) = [] ∧ t.credits (.queue p.link) = s.credits (.queue p.link)) ∨
      ((∃ q ∈ reqs, q.1 < k ∧ q.2.1 = i) ∧ ReturnsOne p.link s t)

namespace Allocated

variable {reqs : Requests} {k : Nat} {t t' : Net}

theorem skip (h : Allocated P r reqs k s t) : Allocated P r reqs (k + 1) s t where
  quiet := h.quiet
  switched := ⟨fun i f hf => by
    obtain ⟨h1, h2, h3, h4⟩ := h.switched.ready i f hf
    exact ⟨h1, h2, lt_succ_of_lt h3, h4⟩, h.switched.distinct⟩
  port i p hp := (h.port i p hp).imp id fun ⟨⟨q, hq, hk, hi⟩, hret⟩ =>
    ⟨⟨q, hq, lt_succ_of_lt hk, hi⟩, hret⟩

theorem grant (hone : reqs.Pairwise fun q q' => q.2.1 ≠ q'.2.1) (h : Allocated P r reqs k s t)
    {i v : Nat} {p : Port} (hmem : (k, i, v) ∈ reqs) (hp : (P.inports r)[i]? = some p)
    (hg : Granted P r i k p t t') : Allocated P r reqs (k + 1) s t' := by
  have hsymm : Std.Symm fun q q' : Nat × Nat × Nat => q.2.1 ≠ q'.2.1 := ⟨fun _ _ h => h.symm⟩
  have hfree := (h.port i p hp).resolve_right fun ⟨⟨q, hq, hk, hi⟩, _⟩ => by
    have hne : q ≠ (k, i, v) := by
      rintro rfl
      exact Nat.lt_irrefl k hk
    exact hone.forall hq hmem hne hi
  obtain ⟨f, hfo, hft, hfs, hbuf⟩ := hg.flit
  rw [hfree.1] at hbuf
  have hself : t'.buf (.switchBuffer r i) = [f] := hbuf
  have hother : ∀ j, j ≠ i → t'.buf (.switchBuffer r j) = t.buf (.switchBuffer r j) :=
    fun j hj => hg.quiet.buf _ (by simp [inputVcs, hj])
  have hquiet : Quiet (inputVcs ∪ switchBuffers P r) (creditQueues (P.inports r)) t t' := by
    refine hg.quiet.mono (Set.union_subset_union_right _ ?_) ?_
    · exact Set.singleton_subset_iff.mpr ⟨i, (List.getElem?_eq_some_iff.mp hp).1, rfl⟩
    · exact Set.singleton_subset_iff.mpr ⟨p, mem_of_getElem? hp, rfl⟩
  refine ⟨h.quiet.trans hquiet, h.switched.put hg.quiet.now hself hother hfo hft hfs, fun j q hq => ?_⟩
  rcases eq_or_ne j i with rfl | hne
  · obtain rfl : q = p := Option.some.inj (hq.symm.trans hp)
    obtain ⟨c, hc, hcr, hs⟩ := hg.credit
    rw [h.quiet.now] at hc hs
    rw [hfree.2] at hcr
    exact .inr ⟨⟨_, hmem, lt_succ_self k, rfl⟩, c, hc, hcr, hs⟩
  · have hlink : q.link ≠ p.link := fun hl =>
      hne (port_idx_unique (inports_pairwise P r) hq hp (.inl hl))
    have hnot : .queue q.link ∉ ({.queue p.link} : Set CreditBuf) := by simpa using hlink
    rw [hother j hne, hg.quiet.credits _ hnot]
    refine (h.port j q hq).imp id fun ⟨⟨q', hq', hk, hi⟩, hret⟩ => ?_
    exact ⟨⟨q', hq', lt_succ_of_lt hk, hi⟩, hret.congr (.none s) (fun h => h)
      h.quiet.now hg.quiet.toTouches hnot⟩

end Allocated

section Allocator

variable (hr : r < P.numRouters)
  (hwait : ∀ l v, ∀ f ∈ s.buf (.inputVc l v), f.time ≤ s.now ∧ f.stage.1 = .sa)
  (hempty : ∀ i, s.buf (.switchBuffer r i) = [])
include hr hwait hempty

theorem arbitrateOutports_allocated {reqs : Requests} (hq : ∀ q ∈ reqs, ReqStands P r s q)
    (hone : reqs.Pairwise fun q q' => q.2.1 ≠ q'.2.1) :
    Outcome (arbitrateOutports P r reqs s)
      (fun s' => Allocated P r reqs (P.outports r).length s s') fun _ => True := by
  let I (k : Nat) (t : Net) : Prop := (Moves P (.router r) s t ∧
    ∀ q ∈ reqs, k ≤ q.1 → ReqStands P r t q) ∧ Allocated P r reqs k s t
  refine (Outcome.foldlM_range (I := I) _ (fun k _ t ht => ?_) s ⟨⟨.rfl', fun q h _ => hq q h⟩, .rfl',
    ⟨fun i f hf => ?_, fun i j f g hf => ?_⟩, fun i p _ => ?_⟩).imp fun t ht => ht.2
  · obtain ⟨⟨hmoves, hstand⟩, halloc⟩ := ht
    have htime : ∀ l v, ∀ f ∈ t.buf (.inputVc l v), f.time ≤ t.now := fun l v f hf =>
      ((inputVc_waits P).moves (mem_consumers.mpr hr) hwait hmoves l v f hf).1
    have hround := grantRound_outcome hr hstand hone
    refine (hround.and (?_ : Outcome _ (Allocated P r reqs (k + 1) s) fun _ => True)).onOk
      fun t' h => ⟨⟨hmoves.trans h.1.1, h.1.2⟩, h.2⟩
    cases hg : findGrant reqs k (P.inports r).length (P.inports r).length
        ((t.router r).roundRobinInport k) with
    | none => exact halloc.skip
    | some iv =>
      obtain ⟨i, v⟩ := iv
      refine (grant_granted htime i v k).imp fun t' ⟨p, hp, hgr⟩ => ?_
      exact halloc.grant hone (mem_of_findGrant _ _ _ _ hg) hp hgr
  · rw [hempty i] at hf
    cases hf
  · rw [hempty i] at hf
    cases hf
  · exact .inl ⟨hempty i, rfl⟩

/-- **The switch allocator** returns one credit at most for each input port and fills the switch
buffers. -/
theorem switchAllocatorWakeup_allocated : Outcome (switchAllocatorWakeup P r s)
    (fun s' => Quiet (inputVcs ∪ switchBuffers P r) (creditQueues (P.inports r)) s s' ∧
      Switched r (P.outports r).length s' ∧ ∀ p ∈ P.inports r, Returns p.link s s')
    fun _ => True := by
  simp only [switchAllocatorWakeup, outcome_bind]
  refine ((arbitrateInports_outcome hr s).and (arbitrateInports_quiet s)).onOk
    fun res ⟨⟨hmoves, hq, hone⟩, hquiet⟩ => ?_
  have hempty' : ∀ i, res.1.buf (.switchBuffer r i) = [] := fun i => by
    rw [hquiet.buf _ fun h => h]
    exact hempty i
  have hwait' := (inputVc_waits P).moves (mem_consumers.mpr hr) hwait hmoves
  refine (arbitrateOutports_allocated hr hwait' hempty' hq hone).imp fun t ht => ?_
  have htouch := (hquiet.mono (Set.empty_subset _) (Set.empty_subset _)).trans ht.quiet
  have hreturns : ∀ p ∈ P.inports r, Returns p.link s t := fun p hp => by
    obtain ⟨i, hi⟩ := mem_iff_getElem?.mp hp
    have hret : Returns p.link res.1 t := (ht.port i p hi).imp (fun h => h.2) fun h => h.2
    exact hret.congr hquiet.toTouches (fun h => h) ht.quiet.now (.none t) fun h => h
  simp only [checkForWakeup, outcome_do]
  refine Outcome.introOk fun again _ => ?_
  split_ifs
  · refine ⟨htouch.trans (.schedule ..), ⟨ht.switched.ready, ht.switched.distinct⟩, fun p hp => ?_⟩
    exact (hreturns p hp).congr (.none s) (fun h => h) htouch.now
      (Quiet.schedule (B := ∅) (C := ∅) t ..).toTouches fun h => h
  · exact ⟨htouch, ht.switched, hreturns⟩

end Allocator

theorem crossbarPort_of_nil {i : Nat} (h : s.buf (.switchBuffer r i) = []) :
    crossbarPort P r i s = .ok s := by
  unfold crossbarPort
  rw [h]
  rfl

theorem crossbarPort_sends {i : Nat} {f : Flit} (hb : s.buf (.switchBuffer r i) = [f])
    (ht : f.time ≤ s.now) (hst : f.isStage .st s.now = true) :
    Outcome (crossbarPort P r i s) (fun s' => ∃ o, (P.outports r)[f.outport]? = some o ∧
      Quiet {.switchBuffer r i, .srcQueue o.link} ∅ s s' ∧ s'.buf (.switchBuffer r i) = [] ∧
      SendsOne o.link s s') fun _ => True := by
  unfold crossbarPort
  rw [hb]
  simp only [ht, hst, and_self, if_true, outPort, outcome_do]
  refine fun o ho => ⟨o, ho, ?_, update_self .., ?_⟩
  · exact ((Quiet.setBuf (b := .srcQueue o.link) (by simp) ..).trans (.schedule ..)).trans
      (.setBuf (b := .switchBuffer r i) (by simp) ..)
  · refine ⟨{ f with stage := (.lt, s.now + 1), time := s.now + 1 }, rfl, ?_,
      Net.mem_scheduled _ _ (le_succ _)⟩
    simp [Net.insert]

structure Crossed (P : Params) (r k : Nat) (s t : Net) : Prop where
  quiet : Quiet (switchBuffers P r ∪ srcQueues (P.outports r)) ∅ s t
  done : ∀ i < k, t.buf (.switchBuffer r i) = []
  rest : ∀ i, k ≤ i → t.buf (.switchBuffer r i) = s.buf (.switchBuffer r i)
  port : ∀ j o, (P.outports r)[j]? = some o → t.buf (.srcQueue o.link) = s.buf (.srcQueue o.link) ∨
    ((∃ i < k, ∃ f ∈ s.buf (.switchBuffer r i), f.outport = j) ∧ SendsOne o.link s t)

namespace Crossed

variable {k : Nat} {t t' : Net}

theorem skip (h : Crossed P r k s t) (hk : t.buf (.switchBuffer r k) = []) :
    Crossed P r (k + 1) s t where
  quiet := h.quiet
  done i hi := (Nat.lt_succ_iff_lt_or_eq.mp hi).elim (h.done i) fun e => e ▸ hk
  rest i hi := h.rest i (le_of_succ_le hi)
  port j o ho := (h.port j o ho).imp id fun ⟨⟨i, hi, hf⟩, hs⟩ => ⟨⟨i, lt_succ_of_lt hi, hf⟩, hs⟩

theorem cross {m : Nat} (hsw : Switched r m s) (h : Crossed P r k s t)
    (hk : k < (P.inports r).length) {f : Flit} {o : Port}
    (hf : s.buf (.switchBuffer r k) = [f]) (ho : (P.outports r)[f.outport]? = some o)
    (hq : Quiet {.switchBuffer r k, .srcQueue o.link} ∅ t t')
    (hnil : t'.buf (.switchBuffer r k) = []) (hsend : SendsOne o.link t t') :
    Crossed P r (k + 1) s t' := by
  have hmem : f ∈ s.buf (.switchBuffer r k) := hf ▸ mem_singleton_self f
  have hfree := (h.port _ o ho).resolve_right fun ⟨⟨i, hi, g, hg, hgo⟩, _⟩ =>
    hi.ne (hsw.distinct i k g f hg hmem hgo)
  have hquiet : Quiet (switchBuffers P r ∪ srcQueues (P.outports r)) ∅ t t' := by
    refine hq.mono (Set.insert_subset (.inl ⟨k, hk, rfl⟩) ?_) (subset_refl _)
    exact Set.singleton_subset_iff.mpr (.inr ⟨o, mem_of_getElem? ho, rfl⟩)
  have hother : ∀ i, i ≠ k → t'.buf (.switchBuffer r i) = t.buf (.switchBuffer r i) :=
    fun i hi => hq.buf _ (by simpa using hi)
  refine ⟨h.quiet.trans hquiet, fun i hi => ?_, fun i hi => ?_, fun j q hj => ?_⟩
  · rcases eq_or_ne i k with rfl | hne
    · exact hnil
    · rw [hother i hne]
      exact h.done i (lt_of_le_of_ne (Nat.lt_succ_iff.mp hi) hne)
  · rw [hother i (lt_of_succ_le hi).ne']
    exact h.rest i (le_of_succ_le hi)
  · rcases eq_or_ne q.link o.link with hl | hne
    · obtain rfl : j = f.outport := port_idx_unique (outports_pairwise P r) hj ho (.inl hl)
      obtain ⟨g, hg, hbuf, hs⟩ := hsend
      rw [hfree, ← hl] at hbuf
      rw [h.quiet.now] at hg hs
      exact .inr ⟨⟨k, lt_succ_self k, f, hmem, rfl⟩, g, hg, hbuf, hl ▸ hs⟩
    · have hnot : .srcQueue q.link ∉ ({.switchBuffer r k, .srcQueue o.link} : Set Buf) := by
        simpa using hne
      rw [hq.buf _ hnot]
      refine (h.port j q hj).imp id fun ⟨⟨i, hi, hg⟩, hsend⟩ => ?_
      exact ⟨⟨i, lt_succ_of_lt hi, hg⟩, hsend.congr (.none s) (fun h => h) h.quiet.now
        hq.toTouches hnot⟩

end Crossed

theorem crossbarWakeup_crossed {m : Nat} (hsw : Switched r m s) :
    Outcome (crossbarWakeup P r s) (Crossed P r (P.inports r).length s) fun _ => True := by
  refine Outcome.foldlM_range (I := fun k => Crossed P r k s) _ (fun k hk t ht => ?_) s
    ⟨.rfl', fun i hi => absurd hi (Nat.not_lt_zero i), fun _ _ => rfl, fun _ _ _ => .inl rfl⟩
  have hrest := ht.rest k le_rfl
  cases hb : s.buf (.switchBuffer r k) with
  | nil =>
    rw [hb] at hrest
    rw [crossbarPort_of_nil hrest]
    exact ht.skip hrest
  | cons f fs =>
    obtain ⟨htime, hst, -, hone⟩ := hsw.ready k f (hb ▸ mem_cons_self ..)
    rw [hone] at hrest
    rw [← ht.quiet.now] at htime hst
    refine (crossbarPort_sends hrest htime hst).imp fun t' ⟨o, ho, hq, hnil, hsend⟩ => ?_
    exact ht.cross hsw hk hone ho hq hnil hsend

def routerPlaces (P : Params) (r : Nat) : Set Buf :=
  inputVcs ∪ switchBuffers P r ∪ linkBuffers (P.inports r) ∪ srcQueues (P.outports r)

def routerCredits (P : Params) (r : Nat) : Set CreditBuf :=
  creditQueues (P.inports r) ∪ creditLinks (P.outports r)

structure Forwarded (P : Params) (r : Nat) (s s' : Net) : Prop where
  quiet : Quiet (routerPlaces P r) (routerCredits P r) s s'
  switch : ∀ i, s'.buf (.switchBuffer r i) = []
  arrives : ∀ p ∈ P.inports r,
    s'.buf (.linkBuffer p.link) = dropReady s.now (s.buf (.linkBuffer p.link))
  credit : ∀ o ∈ P.outports r,
    s'.credits (.link o.link) = dropReady s.now (s.credits (.link o.link))
  sends : ∀ o ∈ P.outports r, Sends o.link s s'
  returns : ∀ p ∈ P.inports r, Returns p.link s s'

section Router

variable (hr : r < P.numRouters)
  (hwait : ∀ l v, ∀ f ∈ s.buf (.inputVc l v), f.time ≤ s.now ∧ f.stage.1 = .sa)
  (hempty : ∀ i, s.buf (.switchBuffer r i) = [])
include hr hwait hempty

theorem pipelineWakeup_forwarded (rnd : Nat → Nat) :
    Outcome (pipelineWakeup P r rnd s) (Forwarded P r s) fun _ => True := by
  simp only [pipelineWakeup, outcome_bind]
  have hin : Runs P (.router r) s ((P.inports r).zipIdx.foldlM
      (fun s e => inputUnitWakeup P r e.1 (rnd (e.2 + 2)) s) s) :=
    Runs.foldlM _ (fun e he t => inputUnitWakeup_runs hr (fst_mem_of_mem_zipIdx he) _ t) s
  refine (hin.and (inputUnits_quiet rnd s)).onOk fun s₁ ⟨hm₁, h₁, harr⟩ => ?_
  have hout : Runs P (.router r) s₁ ((P.outports r).foldlM (fun s o => creditArrival o.link s) s₁) :=
    Runs.foldlM _ (fun o ho t => creditArrival_runs (outport_mem_links hr ho)
      (by rw [outport_driver ho]; rfl) t) s₁
  refine (hout.and (outputUnits_quiet s₁)).onOk fun s₂ ⟨hm₂, h₂, hcr⟩ => ?_
  have hwait₂ := (inputVc_waits P).moves (mem_consumers.mpr hr) hwait (hm₁.trans hm₂)
  have h12 : Quiet (inputVcs ∪ linkBuffers (P.inports r)) (creditLinks (P.outports r)) s s₂ :=
    (h₁.mono (subset_refl _) (Set.empty_subset _)).trans
      (h₂.mono (Set.empty_subset _) (subset_refl _))
  have hempty₂ : ∀ i, s₂.buf (.switchBuffer r i) = [] := fun i => by
    rw [h12.buf _ (by simp [inputVcs, linkBuffers])]
    exact hempty i
  refine (switchAllocatorWakeup_allocated hr hwait₂ hempty₂).imp fun s₃ ⟨h₃, hsw, hret⟩ => ?_
  refine (crossbarWakeup_crossed hsw).imp fun s₄ h₄ => ?_
  have h13 : Quiet (inputVcs ∪ switchBuffers P r ∪ linkBuffers (P.inports r)) (routerCredits P r)
      s s₃ := by
    refine (h12.mono ?_ Set.subset_union_right).trans (h₃.mono ?_ Set.subset_union_left)
    · exact Set.union_subset_union_left _ Set.subset_union_left
    · exact Set.subset_union_left
  refine ⟨?_, fun i => ?_, fun p hp => ?_, fun o ho => ?_, fun o ho => ?_, fun p hp => ?_⟩
  · refine (h13.mono Set.subset_union_left (subset_refl _)).trans
      (h₄.quiet.mono ?_ (Set.empty_subset _))
    refine Set.union_subset_union_left _ ?_
    exact Set.subset_union_right.trans Set.subset_union_left
  · rcases Nat.lt_or_ge i (P.inports r).length with hi | hi
    · exact h₄.done i hi
    · rw [h₄.rest i hi, h₃.buf _ (by simp [inputVcs, switchBuffers, hi])]
      exact hempty₂ i
  · rw [h₄.quiet.buf _ (by simp [switchBuffers, srcQueues]),
      h₃.buf _ (by simp [inputVcs, switchBuffers]), h₂.buf _ fun h => h, harr p hp]
  · rw [h₄.quiet.credits _ fun h => h, h₃.credits _ (by simp [creditQueues]), hcr o ho, h₁.now,
      h₁.credits _ fun h => h]
  · obtain ⟨j, hj⟩ := mem_iff_getElem?.mp ho
    have hsend : Sends o.link s₃ s₄ := (h₄.port j o hj).imp id fun h => h.2
    exact hsend.congr h13.toTouches (by simp [inputVcs, switchBuffers, linkBuffers]) h₄.quiet.now
      (.none s₄) fun h => h
  · exact (hret p hp).congr h12.toTouches (by simp [creditLinks]) h₃.now h₄.quiet.toTouches fun h => h

/-- The wakeup of a router takes what is ready off its links, and adds one entry at most to each
queue. -/
theorem routerWakeup_forwarded (rnd : Nat → Nat) :
    Outcome (routerWakeup P r rnd s) (Forwarded P r s) fun _ => True := by
  unfold routerWakeup
  by_cases hi : P.interswap = true
  case neg =>
    simp only [hi, if_false, Bool.false_eq_true]
    exact pipelineWakeup_forwarded hr hwait hempty rnd
  simp only [hi, if_true, outcome_bind]
  refine (swapWakeup_outcome hr hi rnd s).onOk fun s₁ hswap => ?_
  obtain ⟨hm, hfr⟩ := hswap
  have hq : Quiet inputVcs ∅ s s₁ := by
    refine hm.quiet (fun n => Consumer.noConfusion) (fun b hb => ?_) fun b _ => by rw [hfr.credits]
    exact hfr.elsewhere b fun l v e => hb ⟨l, v, e⟩
  have hwait₁ := (inputVc_waits P).moves (mem_consumers.mpr hr) hwait hm
  have hempty₁ : ∀ i, s₁.buf (.switchBuffer r i) = [] := fun i => by
    rw [hq.buf _ (by simp [inputVcs])]
    exact hempty i
  refine (pipelineWakeup_forwarded hr hwait₁ hempty₁ rnd).imp fun s₂ h => ?_
  refine ⟨?_, h.switch, fun p hp => ?_, fun o ho => ?_, fun o ho => ?_, fun p hp => ?_⟩
  · refine (hq.mono ?_ (Set.empty_subset _)).trans h.quiet
    exact (Set.subset_union_left.trans Set.subset_union_left).trans Set.subset_union_left
  · rw [h.arrives p hp, hq.now, hq.buf _ (by simp [inputVcs])]
  · rw [h.credit o ho, hq.now, hq.credits _ fun h => h]
  · exact (h.sends o ho).congr hq.toTouches (by simp [inputVcs]) h.quiet.now (.none s₂) fun h => h
  · exact (h.returns p hp).congr hq.toTouches (fun h => h) h.quiet.now (.none s₂) fun h => h

end Router

end NocSwap
