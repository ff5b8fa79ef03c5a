import Mathlib.Algebra.Order.BigOperators.Group.Finset
import Mathlib.Data.List.Perm.Subperm
import Mathlib.Data.Nat.ModEq
import NocSwap.Ruby.PerfectSwitch

/-!
# Multicast in a switch of the simple network

The links chosen for a message take disjoint parts of its destinations. The pending counts, by which
`operateVnet` skips virtual networks, are kept equal to the messages in the input buffers. Adaptive
routing looks at queues that an output port may not have.
-/

namespace NocSwap

open Function List MessageBuffer Nat

namespace NetDest

variable {d e : NetDest} {n : Nat}

theorem mem_removeNetDest : n ∈ (d.removeNetDest e).nodes ↔ n ∈ d.nodes ∧ n ∉ e.nodes := by
  show n ∈ d.nodes.filter _ ↔ _
  rw [mem_filter, decide_eq_true_eq]

theorem mem_AND : n ∈ (d.AND e).nodes ↔ n ∈ d.nodes ∧ n ∈ e.nodes := by
  show n ∈ d.nodes.filter _ ↔ _
  rw [mem_filter, decide_eq_true_eq]

theorem intersectionIsNotEmpty_iff :
    d.intersectionIsNotEmpty e = true ↔ ∃ n ∈ d.nodes, n ∈ e.nodes := by
  unfold intersectionIsNotEmpty
  rw [any_eq_true]
  simp

end NetDest

namespace PerfectSwitch

variable {P : Config} {now : Nat} {random : Nat → Nat} {incoming vnet : Nat} {s s' : PerfectSwitch}

structure Split (P : Config) (links : List Nat) (dsts : NetDest) (outs : List (Nat × NetDest))
    (left : NetDest) : Prop where
  sublist : (outs.map Prod.fst).Sublist links
  nonempty : ∀ o ∈ outs, o.2.nodes ≠ []
  disjoint : outs.Pairwise fun o o' => o.2.nodes.Disjoint o'.2.nodes
  within : ∀ o ∈ outs, o.2.nodes ⊆ (P.entry o.1).nodes
  union : ∀ n, n ∈ dsts.nodes ↔ n ∈ left.nodes ∨ ∃ o ∈ outs, n ∈ o.2.nodes
  uncovered : ∀ n ∈ left.nodes, ∀ link ∈ links, n ∉ (P.entry link).nodes

theorem Split.nil (dsts : NetDest) : Split P [] dsts [] dsts :=
  ⟨.slnil, forall_mem_nil _, .nil, forall_mem_nil _, by simp, fun _ _ =>
    forall_mem_nil _⟩

variable {link : Nat} {links : List Nat} {dsts left : NetDest} {outs : List (Nat × NetDest)}

theorem Split.skip (h : Split P links dsts outs left)
    (hempty : dsts.intersectionIsNotEmpty (P.entry link) = false) :
    Split P (link :: links) dsts outs left := by
  refine ⟨h.sublist.cons link, h.nonempty, h.disjoint, h.within, h.union, fun n hn => ?_⟩
  rw [forall_mem_cons]
  refine ⟨fun hentry => ?_, h.uncovered n hn⟩
  have hdst : n ∈ dsts.nodes := (h.union n).mpr (.inl hn)
  have hsome := NetDest.intersectionIsNotEmpty_iff.mpr ⟨n, hdst, hentry⟩
  exact absurd (hempty.symm.trans hsome) Bool.false_ne_true

theorem Split.take (h : Split P links (dsts.removeNetDest (P.entry link)) outs left)
    (hsome : dsts.intersectionIsNotEmpty (P.entry link) = true) :
    Split P (link :: links) dsts ((link, dsts.AND (P.entry link)) :: outs) left := by
  have hrest : ∀ o ∈ outs, ∀ n ∈ o.2.nodes, n ∈ dsts.nodes ∧ n ∉ (P.entry link).nodes :=
    fun o ho n hn => NetDest.mem_removeNetDest.mp ((h.union n).mpr (.inr ⟨o, ho, hn⟩))
  refine ⟨h.sublist.cons_cons link, ?_, ?_, ?_, fun n => ?_, fun n hn => ?_⟩
  · refine forall_mem_cons.mpr ⟨fun hnil => ?_, h.nonempty⟩
    obtain ⟨n, hn, hentry⟩ := NetDest.intersectionIsNotEmpty_iff.mp hsome
    have hmem : n ∈ (dsts.AND (P.entry link)).nodes := NetDest.mem_AND.mpr ⟨hn, hentry⟩
    rw [hnil] at hmem
    exact not_mem_nil hmem
  · refine pairwise_cons.mpr ⟨fun o ho n hn hn' => ?_, h.disjoint⟩
    exact (hrest o ho n hn').2 (NetDest.mem_AND.mp hn).2
  · exact forall_mem_cons.mpr ⟨fun n hn => (NetDest.mem_AND.mp hn).2, h.within⟩
  · have hunion := h.union n
    rw [NetDest.mem_removeNetDest] at hunion
    rw [exists_mem_cons_iff, NetDest.mem_AND]
    -- a destination that the entry covers is taken here, any other is still to be handed out
    by_cases hentry : n ∈ (P.entry link).nodes
    · have hleft : n ∉ left.nodes := fun hn => (hunion.mpr (.inl hn)).2 hentry
      have houts : ¬ ∃ o ∈ outs, n ∈ o.2.nodes := fun ho => (hunion.mpr (.inr ho)).2 hentry
      simp [hentry, hleft, houts]
    · simp only [hentry, not_false_eq_true, and_true, and_false, false_or] at hunion ⊢
      exact hunion
  · have hdst := NetDest.mem_removeNetDest.mp ((h.union n).mpr (.inl hn))
    exact forall_mem_cons.mpr ⟨hdst.2, h.uncovered n hn⟩

theorem chooseLinks_split (links : List Nat) (dsts : NetDest) :
    Split P links dsts (chooseLinks P links dsts).1 (chooseLinks P links dsts).2 := by
  induction links generalizing dsts with
  | nil => exact .nil dsts
  | cons link links ih =>
    cases hsome : dsts.intersectionIsNotEmpty (P.entry link) with
    | true =>
      simp only [chooseLinks, hsome, if_true]
      exact (ih _).take hsome
    | false =>
      simp only [chooseLinks, hsome, Bool.false_eq_true, if_false]
      exact (ih dsts).skip hsome

/-- The outputs of a message to `dsts`: different links, each with a part that its entry covers. -/
structure Partition (P : Config) (dsts : NetDest) (outs : List (Nat × NetDest)) : Prop where
  nodup : (outs.map Prod.fst).Nodup
  links : ∀ o ∈ outs, o.1 < P.numOut
  nonempty : ∀ o ∈ outs, o.2.nodes ≠ []
  disjoint : outs.Pairwise fun o o' => o.2.nodes.Disjoint o'.2.nodes
  within : ∀ o ∈ outs, o.2.nodes ⊆ (P.entry o.1).nodes
  union : ∀ n, n ∈ dsts.nodes ↔ ∃ o ∈ outs, n ∈ o.2.nodes

def Config.Covers (P : Config) (dsts : NetDest) : Prop :=
  ∀ n ∈ dsts.nodes, ∃ link < P.numOut, n ∈ (P.entry link).nodes

section

variable (h : Split P links dsts outs left) (hlinks : links.Perm (List.range P.numOut))
include h hlinks

theorem Split.partition (hleft : left.count = 0) : Partition P dsts outs := by
  have hnone : left.nodes = [] := length_eq_zero_iff.mp hleft
  refine ⟨h.sublist.nodup (hlinks.nodup_iff.mpr nodup_range), fun o ho => ?_, h.nonempty,
    h.disjoint, h.within, fun n => ?_⟩
  · have hmem := h.sublist.subset (mem_map_of_mem ho)
    exact mem_range.mp (hlinks.mem_iff.mp hmem)
  · have hunion := h.union n
    rw [hnone] at hunion
    simpa only [not_mem_nil, false_or] using hunion

theorem Split.count_left (hcovers : P.Covers dsts) : left.count = 0 := by
  apply length_eq_zero_iff.mpr
  apply eq_nil_iff_forall_not_mem.mpr
  intro n hn
  obtain ⟨link, hlink, hentry⟩ := hcovers n ((h.union n).mpr (.inl hn))
  exact h.uncovered n hn link (hlinks.mem_iff.mpr (mem_range.mpr hlink)) hentry

end

def Ordered (P : Config) (s : PerfectSwitch) : Prop :=
  (s.linkOrder.map LinkOrder.link).Perm (List.range P.numOut)

theorem Ordered.length (h : s.Ordered P) : s.linkOrder.length = P.routingTable.length := by
  have hlength := h.length_eq
  rwa [length_map, length_range] at hlength

theorem map_link_plainOrder : (plainOrder P).map LinkOrder.link = List.range P.numOut := by
  unfold plainOrder
  rw [map_map]
  exact map_id _

theorem map_link_linkValues : ((s.linkValues P now random).map Prod.fst).map LinkOrder.link =
    List.range P.numOut := by
  unfold linkValues
  rw [map_map, map_map]
  exact map_id _

theorem ordered_sortLinks : (s.sortLinks P now random).Ordered P := by
  show (List.map LinkOrder.link (List.map Prod.fst _)).Perm _
  have hsort := perm_insertionSort linkBefore (s.linkValues P now random)
  have hmap := (hsort.map Prod.fst).map LinkOrder.link
  rwa [map_link_linkValues] at hmap

structure Stays (s s' : PerfectSwitch) : Prop where
  inBuf : s'.inBuf = s.inBuf
  outBuf : s'.outBuf = s.outBuf
  pending : s'.pendingMessageCount = s.pendingMessageCount

structure Carries (P : Config) (s s' : PerfectSwitch) : Prop where
  ordered : s.Ordered P → s'.Ordered P
  start : s'.roundRobinStart = s.roundRobinStart
  flag : s.scheduled = true → s'.scheduled = true

theorem Carries.rfl' : Carries P s s := ⟨id, rfl, id⟩

variable {s'' : PerfectSwitch}

theorem Carries.trans (h : Carries P s s') (h' : Carries P s' s'') : Carries P s s'' :=
  ⟨fun hs => h'.ordered (h.ordered hs), h'.start.trans h.start, fun hs => h'.flag (h.flag hs)⟩

/-- The queues that a pass over a message in `vnet` to `dsts` looks at are there: those of every
output port if the links are sorted, and those of the links that it may take. -/
structure Config.Queued (P : Config) (vnet : Nat) (dsts : NetDest) : Prop where
  sorted : P.adaptiveRouting = true → P.isVNetOrdered vnet = false →
    ∀ out < P.numOut, ∀ v < P.virtualNetworks, P.hasQueue out v = true
  taken : ∀ out < P.numOut, ∀ n ∈ dsts.nodes, n ∈ (P.entry out).nodes → P.hasQueue out vnet = true

theorem orderLinks_outcome : Outcome (s.orderLinks P now random vnet)
    (fun s₁ => Stays s s₁ ∧ Carries P s s₁) (fun _ => ∀ dsts, ¬ P.Queued vnet dsts) := by
  unfold PerfectSwitch.orderLinks
  split_ifs with hadaptive hordered
  · refine ⟨⟨rfl, rfl, rfl⟩, fun _ => ?_, rfl, id⟩
    show ((plainOrder P).map LinkOrder.link).Perm _
    rw [map_link_plainOrder]
  · rw [outcome_bind, outcome_require]
    refine ⟨fun _ => ⟨⟨rfl, rfl, rfl⟩, fun _ => ordered_sortLinks, rfl, id⟩, fun hmiss dsts h => ?_⟩
    exact hmiss (h.sorted hadaptive (Bool.not_eq_true _ ▸ hordered))
  · exact ⟨⟨rfl, rfl, rfl⟩, .rfl'⟩

def Enqueued (P : Config) (now vnet : Nat) (s s' : PerfectSwitch) (link : Nat) (c : Message) :
    Prop :=
  ∃ rnd arrival, (s.outBuf (link, vnet)).enqueue P.flags c now 1 rnd =
    .ok (s'.outBuf (link, vnet), arrival)

theorem enqueueCopy_outcome {c : Nat × Message} (htime : c.2.lastEnqueueTime ≤ now) :
    Outcome (s.enqueueCopy P now random vnet c)
      (fun s' => Enqueued P now vnet s s' c.1 c.2 ∧ ∀ q, q ≠ (c.1, vnet) → s'.outBuf q = s.outBuf q)
      (fun _ => ¬ (s.outBuf (c.1, vnet)).Accepts P.flags now 1) := by
  unfold enqueueCopy
  cases henq : (s.outBuf (c.1, vnet)).enqueue P.flags c.2 now 1 (random s.draws) with
  | error e =>
    exact (enqueue_accepts _ P.flags c.2 now 1 _).of_error henq htime
  | ok res =>
    refine ⟨⟨random s.draws, res.2, henq.trans ?_⟩, fun q hq => update_of_ne hq ..⟩
    show _ = Except.ok (update s.outBuf (c.1, vnet) res.1 (c.1, vnet), res.2)
    rw [update_self]

theorem enqueueCopies_outcome {l : List (Nat × Message)} (hnodup : (l.map Prod.fst).Nodup)
    (htime : ∀ c ∈ l, c.2.lastEnqueueTime ≤ now) :
    Outcome (l.foldlM (enqueueCopy P now random vnet) s)
      (fun s' => (∀ c ∈ l, Enqueued P now vnet s s' c.1 c.2) ∧
        ∀ q, (∀ c ∈ l, q ≠ (c.1, vnet)) → s'.outBuf q = s.outBuf q)
      (fun _ => ∃ c ∈ l, ¬ (s.outBuf (c.1, vnet)).Accepts P.flags now 1) := by
  induction l generalizing s with
  | nil => exact ⟨forall_mem_nil _, fun _ _ => rfl⟩
  | cons c l ih =>
    rw [map_cons, nodup_cons] at hnodup
    rw [forall_mem_cons] at htime
    -- the links differ, so the other copies find their queues as they were
    have hother : ∀ c' ∈ l, (c'.1, vnet) ≠ (c.1, vnet) := fun c' hc' heq =>
      hnodup.1 ((Prod.mk.inj heq).1 ▸ mem_map_of_mem hc')
    rw [foldlM_cons, outcome_bind]
    refine (enqueueCopy_outcome htime.1).mono (fun s₁ ⟨hfirst, hsame⟩ => ?_) fun _ he =>
      ⟨c, mem_cons_self .., he⟩
    refine (ih hnodup.2 htime.2).mono (fun s' ⟨hsent, hrest⟩ => ⟨?_, fun q hq => ?_⟩) ?_
    · rw [forall_mem_cons]
      constructor
      · unfold Enqueued
        rw [hrest (c.1, vnet) fun c' hc' => (hother c' hc').symm]
        exact hfirst
      · intro c' hc'
        have hc := hsent c' hc'
        unfold Enqueued at hc ⊢
        rwa [hsame _ (hother c' hc')] at hc
    · rw [forall_mem_cons] at hq
      exact (hrest q hq.2).trans (hsame q hq.1)
    · rintro e ⟨c', hc', hrefuses⟩
      rw [hsame _ (hother c' hc')] at hrefuses
      exact ⟨c', mem_cons_of_mem _ hc', hrefuses⟩

/-- Forwarding `m`: it is dequeued, and a copy of it is enqueued for each output. -/
structure Forwards (P : Config) (now incoming vnet : Nat) (m : Message)
    (outs : List (Nat × NetDest)) (s s' : PerfectSwitch) : Prop where
  dequeue : ∃ m', (s.inBuf (incoming, vnet)).dequeue now true =
    .ok (s'.inBuf (incoming, vnet), m')
  inputs : ∀ q, q ≠ (incoming, vnet) → s'.inBuf q = s.inBuf q
  pending : s'.pendingMessageCount =
    update s.pendingMessageCount vnet (s.pendingMessageCount vnet - 1)
  enqueue : ∀ o ∈ outs, ∃ c : Message, c.body = (m.time, o.2) ∧ Enqueued P now vnet s s' o.1 c
  outputs : ∀ q, (∀ o ∈ outs, q ≠ (o.1, vnet)) → s'.outBuf q = s.outBuf q

variable {m : Message}

theorem Stays.forwards {outs : List (Nat × NetDest)}
    (h : Stays s s') (h' : Forwards P now incoming vnet m outs s' s'') :
    Forwards P now incoming vnet m outs s s'' := by
  obtain ⟨hdeq, hin, hpending, henq, hout⟩ := h'
  unfold Enqueued at henq
  rw [h.inBuf] at hdeq hin
  rw [h.pending] at hpending
  rw [h.outBuf] at henq hout
  exact ⟨hdeq, hin, hpending, henq, hout⟩

theorem map_fst_copies (m m' : Message) (outs : List (Nat × NetDest)) :
    (copies m' m outs).map Prod.fst = outs.map Prod.fst := by
  cases outs with
  | nil => rfl
  | cons o outs =>
    unfold copies
    rw [map_cons, map_cons, map_map]
    rfl

theorem mem_copies {m' : Message} {c : Nat × Message} (hc : c ∈ copies m' m outs) :
    ∃ o ∈ outs, c.1 = o.1 ∧ (c.2 = { m with destination := o.2 } ∨
      c.2 = { m' with destination := o.2 }) := by
  cases outs with
  | nil => exact absurd hc not_mem_nil
  | cons o outs =>
    rcases mem_cons.mp hc with rfl | hc
    · exact ⟨o, mem_cons_self .., rfl, .inr rfl⟩
    · obtain ⟨o', ho', rfl⟩ := mem_map.mp hc
      exact ⟨o', mem_cons_of_mem _ ho', rfl, .inl rfl⟩

theorem exists_copy (m m' : Message) {o : Nat × NetDest} (ho : o ∈ outs) :
    ∃ c ∈ copies m' m outs, c.1 = o.1 ∧ (c.2 = { m with destination := o.2 } ∨
      c.2 = { m' with destination := o.2 }) := by
  cases outs with
  | nil => exact absurd ho not_mem_nil
  | cons o' outs =>
    rcases mem_cons.mp ho with rfl | ho
    · exact ⟨_, mem_cons_self .., rfl, .inr rfl⟩
    · exact ⟨_, mem_cons_of_mem _ (mem_map_of_mem ho), rfl, .inl rfl⟩

theorem deliver_outcome {rest : List Message}
    (hheap : (s.inBuf (incoming, vnet)).prioHeap = m :: rest) (htime : m.lastEnqueueTime ≤ now)
    (hnodup : (outs.map Prod.fst).Nodup) :
    Outcome (s.deliver P now random incoming vnet m outs)
      (fun s' => Forwards P now incoming vnet m outs s s' ∧ Carries P s s')
      (fun _ => ∃ o ∈ outs, ¬ (s.outBuf (o.1, vnet)).Accepts P.flags now 1) := by
  obtain ⟨b, m', hdeq⟩ := dequeue_of_ready hheap htime
  obtain ⟨m₀, rest₀, hheap₀, -, hm', -⟩ := dequeue_ok hdeq
  obtain ⟨rfl, -⟩ := cons_eq_cons.mp (hheap₀.symm.trans hheap)
  unfold deliver
  rw [hdeq]
  show Outcome ((copies m' m₀ outs).foldlM _ _) _ _
  have hlate : ∀ c ∈ copies m' m₀ outs, c.2.lastEnqueueTime ≤ now := by
    intro c hc
    obtain ⟨o, -, -, hcopy | hcopy⟩ := mem_copies hc
    · rw [hcopy]
      exact htime
    · rw [hcopy, hm']
      exact htime
  have hlinks : ((copies m' m₀ outs).map Prod.fst).Nodup := by rwa [map_fst_copies]
  refine Outcome.intro (fun s' hs' => ?_) fun e he => ?_
  · obtain ⟨hsent, hothers⟩ := (enqueueCopies_outcome hlinks hlate).of_ok hs'
    have hkept := (enqueueCopies_kept _).of_ok s' hs'
    simp only [kept, Prod.mk.injEq] at hkept
    obtain ⟨hin, horder, hstart, hpending, hflag⟩ := hkept
    have hcarries : Carries P s s' := by
      refine ⟨fun hs => ?_, hstart, fun hs => hflag.trans hs⟩
      unfold Ordered
      rw [horder]
      exact hs
    refine ⟨⟨⟨m', ?_⟩, fun q hq => ?_, hpending, fun o ho => ?_, fun q hq => ?_⟩, hcarries⟩
    · rw [hdeq, hin, update_self]
    · rw [hin]
      exact update_of_ne hq ..
    · obtain ⟨c, hc, hlink, hcopy⟩ := exists_copy m₀ m' ho
      have henq := hsent c hc
      rw [hlink] at henq
      refine ⟨c.2, ?_, henq⟩
      rcases hcopy with hcopy | hcopy
      · rw [hcopy]
        rfl
      · rw [hcopy, hm']
        rfl
    · refine hothers q fun c hc => ?_
      obtain ⟨o, ho, hlink, -⟩ := mem_copies hc
      rw [hlink]
      exact hq o ho
  · obtain ⟨c, hc, hrefuses⟩ := (enqueueCopies_outcome hlinks hlate).of_error he
    obtain ⟨o, ho, hlink, -⟩ := mem_copies hc
    rw [hlink] at hrefuses
    exact ⟨o, ho, hrefuses⟩

def Passes (P : Config) (now incoming vnet : Nat) (m : Message) (s s' : PerfectSwitch)
    (goesOn : Bool) : Prop :=
  ∃ outs, Partition P m.destination outs ∧
    ((goesOn = false ∧ (∃ o ∈ outs, (s.outBuf (o.1, vnet)).areNSlotsAvailable 1 now = false) ∧
        Stays s s') ∨
      (goesOn = true ∧ (∀ o ∈ outs, (s.outBuf (o.1, vnet)).areNSlotsAvailable 1 now = true) ∧
        Forwards P now incoming vnet m outs s s'))

theorem forward_outcome {rest : List Message} (hs : s.Ordered P)
    (hheap : (s.inBuf (incoming, vnet)).prioHeap = m :: rest) (htime : m.lastEnqueueTime ≤ now) :
    Outcome (s.forward P now random incoming vnet)
      (fun res => Passes P now incoming vnet m s res.1 res.2 ∧ Carries P s res.1 ∧
        (res.2 = false → res.1.scheduled = true))
      (fun _ => P.Covers m.destination → P.Queued vnet m.destination →
        ∃ link < P.numOut, ¬ (s.outBuf (link, vnet)).Accepts P.flags now 1) := by
  unfold forward
  rw [hheap]
  show Outcome (require _ _ >>= _) _ _
  rw [outcome_bind, outcome_require]
  refine ⟨fun _ => ?_, fun h => absurd hs.length h⟩
  show Outcome (PerfectSwitch.orderLinks P now random vnet s >>= _) _ _
  rw [outcome_bind]
  refine orderLinks_outcome.mono (fun s₁ ⟨hstays, hcarries⟩ => ?_) fun _ hmiss _ hqueued =>
    absurd hqueued (hmiss _)
  have hsplit := chooseLinks_split (P := P) (s₁.linkOrder.map LinkOrder.link) m.destination
  show Outcome (require _ _ >>= _) _ _
  rw [outcome_bind, outcome_require]
  refine ⟨fun hleft => ?_, fun hleft hcovers =>
    absurd (hsplit.count_left (hcarries.ordered hs) hcovers) hleft⟩
  have hpart := hsplit.partition (hcarries.ordered hs) hleft
  generalize (chooseLinks P (s₁.linkOrder.map LinkOrder.link) m.destination).1 = outs at hpart ⊢
  show Outcome (require _ _ >>= _) _ _
  rw [outcome_bind, outcome_require]
  refine ⟨fun _ => ?_, fun hmiss _ hqueued => absurd (fun o ho => ?_) hmiss⟩
  swap
  · -- a chosen link takes a part of the destinations
    obtain ⟨n, hn⟩ := exists_mem_of_ne_nil _ (hpart.nonempty o ho)
    exact hqueued.taken o.1 (hpart.links o ho) n ((hpart.union n).mpr ⟨o, ho, hn⟩)
      (hpart.within o ho hn)
  rw [hstays.outBuf]
  split_ifs with hslots
  · rw [all_eq_true] at hslots
    rw [← hstays.inBuf] at hheap
    rw [outcome_bind]
    refine (deliver_outcome hheap htime hpart.nodup).mono (fun s' ⟨hforwards, hs'⟩ => ?_) ?_
    · exact ⟨⟨outs, hpart, .inr ⟨rfl, hslots, hstays.forwards hforwards⟩⟩, hcarries.trans hs',
        fun h => absurd h.symm Bool.false_ne_true⟩
    · rintro e ⟨o, ho, hrefuses⟩ - -
      rw [hstays.outBuf] at hrefuses
      exact ⟨o.1, hpart.links o ho, hrefuses⟩
  · rw [Bool.not_eq_true, all_eq_false] at hslots
    obtain ⟨o, ho, hslot⟩ := hslots
    refine ⟨⟨outs, hpart, .inl ⟨rfl, ⟨o, ho, Bool.not_eq_true _ ▸ hslot⟩, ?_⟩⟩, ?_, fun _ => rfl⟩
    · exact ⟨hstays.inBuf, rfl, hstays.pending⟩
    · exact ⟨hcarries.ordered, hcarries.start, fun _ => rfl⟩

def Config.ports (P : Config) (vnet : Nat) : Finset Nat :=
  (Finset.range P.inPorts.length).filter fun port => P.hasBuffer port vnet = true

def waiting (P : Config) (s : PerfectSwitch) (vnet : Nat) : Int :=
  ∑ port ∈ P.ports vnet, ((s.inBuf (port, vnet)).prioHeap.length : Int)

def Counts (P : Config) (s : PerfectSwitch) : Prop :=
  ∀ n, s.pendingMessageCount n = s.waiting P n

variable {port n : Nat}

theorem lt_of_hasBuffer (h : P.hasBuffer port n = true) : port < P.inPorts.length := by
  by_contra hge
  unfold Config.hasBuffer at h
  have hnone : P.inPorts.getD port [] = [] := by
    rw [getD_eq_getElem?_getD, getElem?_eq_none (not_lt.mp hge), Option.getD_none]
  rw [hnone] at h
  exact absurd h Bool.false_ne_true

theorem mem_ports (h : P.hasBuffer port n = true) : port ∈ P.ports n :=
  Finset.mem_filter.mpr ⟨Finset.mem_range.mpr (lt_of_hasBuffer h), h⟩

theorem waiting_congr (h : ∀ port, s'.inBuf (port, n) = s.inBuf (port, n)) :
    s'.waiting P n = s.waiting P n := by
  unfold waiting
  apply Finset.sum_congr rfl
  intro port _
  rw [h port]

theorem Counts.update (k : Int) (h : s.Counts P) (hport : P.hasBuffer incoming vnet = true)
    (hsame : ∀ q, q ≠ (incoming, vnet) → s'.inBuf q = s.inBuf q)
    (hlength : ((s'.inBuf (incoming, vnet)).prioHeap.length : Int) =
      (s.inBuf (incoming, vnet)).prioHeap.length + k)
    (hpending : s'.pendingMessageCount =
      update s.pendingMessageCount vnet (s.pendingMessageCount vnet + k)) :
    s'.Counts P := by
  intro n
  rw [hpending]
  by_cases hn : n = vnet
  · rw [hn, update_self, h vnet]
    unfold waiting
    rw [← Finset.add_sum_erase _ _ (mem_ports hport), ← Finset.add_sum_erase _ _ (mem_ports hport),
      hlength]
    have hrest : ∀ port ∈ (P.ports vnet).erase incoming,
        ((s'.inBuf (port, vnet)).prioHeap.length : Int) =
          (s.inBuf (port, vnet)).prioHeap.length := by
      intro port hp
      rw [hsame (port, vnet) fun heq => (Finset.mem_erase.mp hp).1 (Prod.mk.inj heq).1]
    rw [Finset.sum_congr rfl hrest]
    omega
  · rw [update_of_ne hn, h n]
    exact (waiting_congr fun port => hsame _ fun heq => hn (Prod.mk.inj heq).2).symm

theorem Counts.stays (h : s.Counts P) (hstays : Stays s s') : s'.Counts P := by
  intro n
  rw [hstays.pending, h n]
  exact (waiting_congr fun port => by rw [hstays.inBuf]).symm

theorem Counts.forwards (h : s.Counts P) (hport : P.hasBuffer incoming vnet = true)
    (hforwards : Forwards P now incoming vnet m outs s s') : s'.Counts P := by
  obtain ⟨m', hdeq⟩ := hforwards.dequeue
  obtain ⟨m₀, rest, hheap, -, -, hb⟩ := dequeue_ok hdeq
  refine h.update (-1) hport hforwards.inputs ?_ hforwards.pending
  rw [hb, hheap, length_cons]
  push_cast
  omega

/-- A queue of `ports` that still has a ready message has called for another wakeup. -/
structure Visited (P : Config) (now vnet : Nat) (ports : List Nat) (s s' : PerfectSwitch) :
    Prop where
  carries : Carries P s s'
  counts : s.Counts P → s'.Counts P
  inputs : ∀ q, (∀ port ∈ ports, q ≠ (port, vnet)) → s'.inBuf q = s.inBuf q
  done : ∀ port ∈ ports, P.hasBuffer port vnet = true →
    (s'.inBuf (port, vnet)).isReady now = true → s'.scheduled = true

theorem Visited.nil : Visited P now vnet [] s s :=
  ⟨.rfl', id, fun _ _ => rfl, forall_mem_nil _⟩

theorem Visited.cons {ports : List Nat} (h : Visited P now vnet [port] s s')
    (h' : Visited P now vnet ports s' s'') : Visited P now vnet (port :: ports) s s'' := by
  refine ⟨h.carries.trans h'.carries, fun hs => h'.counts (h.counts hs), fun q hq => ?_, ?_⟩
  · rw [forall_mem_cons] at hq
    exact (h'.inputs q hq.2).trans (h.inputs q (forall_mem_singleton.mpr hq.1))
  · rw [forall_mem_cons]
    refine ⟨fun hport hready => ?_, h'.done⟩
    -- the queue is as it was left, unless it has been operated again
    by_cases hmem : port ∈ ports
    · exact h'.done port hmem hport hready
    · have hsame := h'.inputs (port, vnet) fun p hp heq => hmem ((Prod.mk.inj heq).1 ▸ hp)
      rw [hsame] at hready
      exact h'.carries.flag (h.done port (mem_singleton_self port) hport hready)

theorem operateMessageBuffer_outcome (s : PerfectSwitch) (hs : s.Ordered P)
    (hport : P.hasBuffer incoming vnet = true) :
    Outcome (s.operateMessageBuffer P now random incoming vnet) (Visited P now vnet [incoming] s)
      (fun _ => True) := by
  fun_induction operateMessageBuffer P now random incoming vnet s with
  | case1 s hready s₁ hforward ih =>
    obtain ⟨m, rest, hheap, htime⟩ := exists_of_isReady hready
    obtain ⟨⟨outs, -, hpass⟩, hcarries, -⟩ := (forward_outcome hs hheap htime).of_ok hforward
    obtain ⟨hno, -⟩ | ⟨-, -, hforwards⟩ := hpass
    · exact absurd hno.symm Bool.false_ne_true
    · refine (ih (hcarries.ordered hs)).onOk fun s' h => ?_
      refine ⟨hcarries.trans h.carries, fun hc => h.counts (hc.forwards hport hforwards), ?_,
        h.done⟩
      intro q hq
      exact (h.inputs q hq).trans (hforwards.inputs q (hq incoming (mem_singleton_self _)))
  | case2 s hready s₁ hforward =>
    obtain ⟨m, rest, hheap, htime⟩ := exists_of_isReady hready
    obtain ⟨⟨outs, -, hpass⟩, hcarries, hflag⟩ := (forward_outcome hs hheap htime).of_ok hforward
    obtain ⟨-, -, hstays⟩ | ⟨hyes, -⟩ := hpass
    · exact ⟨hcarries, fun hc => hc.stays hstays, fun q _ => by rw [hstays.inBuf],
        forall_mem_singleton.mpr fun _ _ => hflag rfl⟩
    · exact absurd hyes Bool.false_ne_true
  | case3 s hready e hforward => exact trivial
  | case4 s hready =>
    exact ⟨.rfl', id, fun _ _ => rfl, forall_mem_singleton.mpr fun _ h => absurd h hready⟩

theorem operatePorts_outcome (ports : List Nat) (s : PerfectSwitch) (hs : s.Ordered P) :
    Outcome (ports.foldlM (operatePort P now random vnet) s) (Visited P now vnet ports s)
      (fun _ => True) := by
  induction ports generalizing s with
  | nil => exact .nil
  | cons port ports ih =>
    have hfirst : Outcome (s.operatePort P now random vnet port) (Visited P now vnet [port] s)
        (fun _ => True) := by
      unfold operatePort
      split_ifs with hport
      · exact operateMessageBuffer_outcome s hs hport
      · exact ⟨.rfl', id, fun _ _ => rfl, forall_mem_singleton.mpr fun h => absurd h hport⟩
    rw [foldlM_cons, outcome_bind]
    refine hfirst.imp fun s₁ h₁ => ?_
    exact (ih s₁ (h₁.carries.ordered hs)).imp fun s' h => h₁.cons h

structure Invariant (P : Config) (s : PerfectSwitch) : Prop where
  ordered : s.Ordered P
  counts : s.Counts P
  start : 0 < P.inPorts.length → s.roundRobinStart < P.inPorts.length

theorem nextPort_lt (h : 0 < P.inPorts.length) : nextPort P port < P.inPorts.length := by
  unfold nextPort
  split_ifs
  · exact h
  · omega

theorem Invariant.operateVnet (h : Invariant P s) (n : Nat) :
    Outcome (s.operateVnet P now random n) (Invariant P) (fun _ => True) := by
  have hnext : Invariant P { s with roundRobinStart := nextPort P s.roundRobinStart } :=
    ⟨h.ordered, h.counts, nextPort_lt⟩
  unfold PerfectSwitch.operateVnet
  dsimp only
  split_ifs
  · refine (operatePorts_outcome _ _ hnext.ordered).imp fun s' h' => ?_
    refine ⟨h'.carries.ordered hnext.ordered, h'.counts hnext.counts, fun hpos => ?_⟩
    rw [h'.carries.start]
    exact hnext.start hpos
  · exact hnext

theorem Counts.pos (h : s.Counts P) (hport : P.hasBuffer port n = true)
    (hwaits : (s.inBuf (port, n)).prioHeap ≠ []) : 0 < s.pendingMessageCount n := by
  rw [h n]
  have hlength : 0 < ((s.inBuf (port, n)).prioHeap.length : Int) :=
    Int.natCast_pos.mpr (length_pos_iff.mpr hwaits)
  exact hlength.trans_le (Finset.single_le_sum (fun _ _ => Int.natCast_nonneg _) (mem_ports hport))

end PerfectSwitch

end NocSwap
