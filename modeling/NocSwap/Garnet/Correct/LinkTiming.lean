import NocSwap.Garnet.Correct.Delivery
import NocSwap.Garnet.Correct.Traffic

/-!
# Links on time

Source queues hold one entry at most, and a link of latency at least `1` hands over each in time.
-/

namespace NocSwap

open Function List Set

variable {P : Params} {s s' : Net} {c : Consumer} {l : Link}

/-! ### Wakeups of a cycle -/

def EventsOnce (s : Net) : Prop :=
  ∀ c t, s.now ≤ t → (t ∈ s.events c → t ∈ s.scheduled c) ∧ (s.events c).count t ≤ 1

theorem EventsOnce.schedule (h : EventsOnce s) (c : Consumer) (t : Nat) :
    EventsOnce (s.schedule c t) := by
  intro c' t' ht'
  obtain ⟨hmem, hcount⟩ := h c' t' ht'
  have hkeep := (Quiet.schedule (B := ∅) (C := ∅) s c t).scheduled c' t' ht'
  rcases eq_or_ne c' c with rfl | hne
  · rw [Net.schedule_events, update_self]
    split_ifs with hfresh
    · exact ⟨fun ht => hkeep (hmem ht), hcount⟩
    · rcases eq_or_ne t' t with rfl | hnt
      · -- the wakeup was not scheduled, so it was not pending
        have hnone : t' ∉ s.events c' := fun ht => hfresh (hmem ht)
        rw [count_cons_self, count_eq_zero.mpr hnone]
        exact ⟨fun _ => Net.mem_scheduled s c' ht', le_refl 1⟩
      · rw [count_cons_of_ne hnt.symm]
        exact ⟨fun ht => hkeep (hmem (mem_of_ne_of_mem hnt ht)), hcount⟩
  · rw [Net.schedule_events, update_of_ne hne]
    exact ⟨fun ht => hkeep (hmem ht), hcount⟩

theorem eventsOnce (P : Params) : Inductive P EventsOnce where
  init _ _ _ := ⟨fun h => (nomatch h), Nat.zero_le 1⟩
  fire s c h c' t ht := by
    obtain ⟨hmem, hcount⟩ := h c' t ht
    have hsub : ((s.fire c).events c').Sublist (s.events c') := by
      rcases eq_or_ne c' c with rfl | hne
      · rw [Net.fire_events, update_self]
        exact erase_sublist
      · rw [Net.fire_events, update_of_ne hne]
    exact ⟨fun h => hmem (hsub.subset h), (hsub.count_le t).trans hcount⟩
  tick s h c t ht := h c t (Nat.le_of_succ_le ht)
  move s c s' _ h hm := by
    cases hm with
    | sched _ c₀ t₀ => exact h.schedule c₀ t₀
    | _ => exact h

def Net.Woken (s : Net) (c : Consumer) : Prop := s.now ∈ s.scheduled c ∧ s.now ∉ s.events c

instance (s : Net) (c : Consumer) : Decidable (s.Woken c) := inferInstanceAs (Decidable (_ ∧ _))

theorem EventsOnce.woken_fire (h : EventsOnce s) (hc : s.now ∈ s.events c) :
    (s.fire c).Woken c := by
  obtain ⟨hmem, hcount⟩ := h c s.now (le_refl _)
  refine ⟨hmem hc, ?_⟩
  show s.now ∉ (s.fire c).events c
  rw [Net.fire_events, update_self, ← count_eq_zero, count_erase_self]
  exact Nat.sub_eq_zero_of_le hcount

theorem Net.Woken.schedule (h : s.Woken c) (c' : Consumer) (t : Nat) :
    (s.schedule c' t).Woken c := by
  refine ⟨(Quiet.schedule (B := ∅) (C := ∅) s c' t).scheduled c s.now (le_refl _) h.1, ?_⟩
  show s.now ∉ (s.schedule c' t).events c
  rcases eq_or_ne c c' with rfl | hne
  · rw [Net.schedule_events, update_self]
    split_ifs with hfresh
    · exact h.2
    · rintro (_ | ⟨_, hmem⟩)
      · exact hfresh h.1
      · exact h.2 hmem
  · rw [Net.schedule_events, update_of_ne hne]
    exact h.2

/-- What happens to the wakeups while `c` acts: none is lost but that of `c` in the current cycle.
-/
structure Woke (c : Consumer) (s s' : Net) : Prop where
  now : s'.now = s.now
  woken : ∀ c', s.Woken c' → s'.Woken c'
  later : ∀ c' t, s.now < t → t ∈ s.events c' → t ∈ s'.events c'
  others : ∀ c', c' ≠ c → s.now ∈ s.events c' → s.now ∈ s'.events c'

namespace Woke

theorem trans {t : Net} (h : Woke c s s') (h' : Woke c s' t) : Woke c s t where
  now := h'.now.trans h.now
  woken c' hw := h'.woken c' (h.woken c' hw)
  later c' u hu hm := h'.later c' u (h.now ▸ hu) (h.later c' u hu hm)
  others c' hne hm := h.now ▸ h'.others c' hne (h.now.symm ▸ h.others c' hne hm)

theorem fire (s : Net) (c : Consumer) : Woke c s (s.fire c) where
  now := rfl
  woken c' h := by
    refine ⟨h.1, ?_⟩
    show s.now ∉ (s.fire c).events c'
    rcases eq_or_ne c' c with rfl | hne
    · rw [Net.fire_events, update_self]
      exact fun hm => h.2 (mem_of_mem_erase hm)
    · rw [Net.fire_events, update_of_ne hne]
      exact h.2
  later c' t ht hm := by
    rcases eq_or_ne c' c with rfl | hne
    · rw [Net.fire_events, update_self]
      exact (mem_erase_of_ne ht.ne').mpr hm
    · rwa [Net.fire_events, update_of_ne hne]
  others c' hne hm := by rwa [Net.fire_events, update_of_ne hne]

theorem moves {c₀ : Consumer} (h : Moves P c₀ s s') : Woke c s s' where
  now := h.now_eq
  woken c' hw := by
    induction h with
    | refl => exact hw
    | tail _ hm ih =>
      cases hm with
      | sched _ c₁ t₁ => exact ih.schedule c₁ t₁
      | _ => exact ih
  later _ _ _ := h.events_mono
  others _ _ := h.events_mono

end Woke

theorem wake_woke (hs : Reachable P s) {rnd : Nat → Nat} (hen : Enabled P s (.wake c rnd))
    (hex : exec P (.wake c rnd) s = .ok s') : Woke c s s' ∧ ¬ s.Woken c ∧ s'.Woken c := by
  have hmoves : Woke c (s.fire c) s' := Woke.moves ((exec_outcome hen).of_ok hex).1
  refine ⟨(Woke.fire s c).trans hmoves, fun hw => hw.2 hen.2, hmoves.woken c ?_⟩
  exact ((eventsOnce P).reachable hs).woken_fire hen.2

/-- A delay line, given the consumers that feed it, carry its entries and take them. -/
def Net.delayLine {α : Type} (s : Net) (source carrier sink : Consumer) (queue line : List α) :
    DelayLine α where
  now := s.now
  queue := queue
  line := line
  sourceDone := s.Woken source
  carrierDone := s.Woken carrier
  sinkDone := s.Woken sink
  carrier t := t ∈ s.events carrier
  sink t := t ∈ s.events sink

def Net.flitLine (P : Params) (s : Net) (l : Link) : DelayLine Flit :=
  s.delayLine (P.creditConsumer l).consumer (.link l) (P.linkConsumer l).consumer
    (s.buf (.srcQueue l)) (s.buf (.linkBuffer l))

def Net.creditLine (P : Params) (s : Net) (l : Link) : DelayLine Credit :=
  s.delayLine (P.linkConsumer l).consumer (.creditLink l) (P.creditConsumer l).consumer
    (s.credits (.queue l)) (s.credits (.link l))

namespace Woke

variable {α : Type} [Timed α] {source carrier sink : Consumer} {q q' ln ln' : List α} {δ L : Nat}
  {C S : Prop}

omit [Timed α] in
theorem within (h : Woke c s s') : DelayLine.Within (s.delayLine source carrier sink q ln)
    (s'.delayLine source carrier sink q' ln') :=
  ⟨h.now, h.woken _, h.woken _, h.later _, h.later _⟩

theorem idle (h : Woke c s s') (hcarrier : carrier ≠ c) (hsink : sink ≠ c) (hq : q' = q)
    (hl : ln' = ln) : DelayLine.Step δ L C S (s.delayLine source carrier sink q ln)
      (s'.delayLine source carrier sink q' ln') :=
  .idle h.within (h.others _ hcarrier) (h.others _ hsink) hq hl

theorem put (h : Woke c s s') (hcarrier : carrier ≠ c) (hsink : sink ≠ c) (hfresh : ¬ s.Woken c)
    (hdone : s'.Woken c) (hq : q' = q ∨ ∃ a, Timed.time a = s.now + δ ∧ q' = Timed.insert a q ∧
      s.now + 1 ∈ s'.events carrier) (hl : ln' = ln) :
    DelayLine.Step δ L C S (s.delayLine c carrier sink q ln)
      (s'.delayLine c carrier sink q' ln') := by
  rcases hq with hq | ⟨a, ha, hq, hnext⟩
  · exact h.idle hcarrier hsink hq hl
  · exact .put h.within (h.others _ hcarrier) (h.others _ hsink) ha hfresh hdone hnext hq hl

theorem serve (h : Woke c s s') (hfresh : ¬ s.Woken c) (hdone : s'.Woken c) (hcarrier : carrier ≠ c)
    (hends : source ≠ sink)
    (hput : source = c → q' = q ∨ ∃ a, Timed.time a = s.now + δ ∧ q' = Timed.insert a q ∧
      s.now + 1 ∈ s'.events carrier) (hq : source ≠ c → q' = q)
    (htake : sink = c → S ∧ ln' = dropReady s.now ln) (hl : sink ≠ c → ln' = ln) :
    DelayLine.Step δ L C S (s.delayLine source carrier sink q ln)
      (s'.delayLine source carrier sink q' ln') := by
  by_cases hsink : sink = c
  · obtain ⟨hS, hln⟩ := htake hsink
    have hsource : source ≠ c := hsink ▸ hends
    exact .take hS h.within (h.others _ hcarrier) (hq hsource) hln
  by_cases hsource : source = c
  · subst hsource
    exact h.put hcarrier hsink hfresh hdone (hput rfl) (hl hsink)
  · exact h.idle hcarrier hsink (hq hsource) (hl hsink)

end Woke

theorem consumer_mem_of_link (hl : l ∈ P.links) :
    (P.linkConsumer l).consumer ∈ P.consumers ∧ (P.creditConsumer l).consumer ∈ P.consumers := by
  rw [mem_consumers, mem_consumers]
  rcases mem_links.mp hl with ⟨n, hn, rfl⟩ | ⟨n, hn, rfl⟩ | ⟨r, hr, d, v, hv, rfl⟩
  · exact ⟨P.niRouter_lt n, hn⟩
  · exact ⟨hn, P.niRouter_lt n⟩
  · refine ⟨?_, hr⟩
    show (P.nbr r d).getD 0 < P.numRouters
    rw [hv]
    exact nbr_lt hr hv

theorem consumer_ne_link (x : Params.Sink) : x.consumer ≠ .link l ∧ x.consumer ≠ .creditLink l := by
  cases x with
  | router r | ni n => exact ⟨fun h => (nomatch h), fun h => (nomatch h)⟩

theorem Params.Sink.consumer_inj {x y : Params.Sink} (h : x.consumer = y.consumer) : x = y := by
  cases x <;> cases y <;> cases h <;> rfl

/-- What the wakeup of `c` does to link `l`: its consumer takes what is due, its source takes a due
credit and sends one flit at most. -/
structure Served (P : Params) (c : Consumer) (l : Link) (s s' : Net) : Prop where
  sink : (P.linkConsumer l).consumer = c → s'.buf (.linkBuffer l) =
    dropReady s.now (s.buf (.linkBuffer l)) ∧ Returns l s s'
  source : (P.creditConsumer l).consumer = c → s'.credits (.link l) =
    dropReady s.now (s.credits (.link l)) ∧ Sends l s s'
  notSink : (P.linkConsumer l).consumer ≠ c → s'.buf (.linkBuffer l) = s.buf (.linkBuffer l) ∧
    s'.credits (.queue l) = s.credits (.queue l)
  notSource : (P.creditConsumer l).consumer ≠ c → s'.credits (.link l) = s.credits (.link l) ∧
    s'.buf (.srcQueue l) = s.buf (.srcQueue l)

theorem Forwarded.served {r : Nat} (hr : r < P.numRouters) (hl : l ∈ P.links)
    (h : Forwarded P r s s') : Served P (.router r) l s s' where
  sink heq := by
    obtain ⟨p, hp, rfl⟩ := exists_inport hl (Params.Sink.consumer_inj (y := .router r) heq)
    exact ⟨h.arrives p hp, h.returns p hp⟩
  source heq := by
    obtain ⟨o, ho, rfl⟩ := exists_outport hl (Params.Sink.consumer_inj (y := .router r) heq)
    exact ⟨h.credit o ho, h.sends o ho⟩
  notSink hne := by
    have hport : ∀ p ∈ P.inports r, l ≠ p.link := by
      rintro p hp rfl
      exact hne (by rw [inport_consumer hr hp]; rfl)
    refine ⟨h.quiet.buf _ ?_, h.quiet.credits _ ?_⟩
    · simpa [routerPlaces, inputVcs, switchBuffers, linkBuffers, srcQueues] using hport
    · simpa [routerCredits, creditQueues, creditLinks] using hport
  notSource hne := by
    have hport : ∀ o ∈ P.outports r, l ≠ o.link := by
      rintro o ho rfl
      exact hne (by rw [outport_driver ho]; rfl)
    refine ⟨h.quiet.credits _ ?_, h.quiet.buf _ ?_⟩
    · simpa [routerCredits, creditQueues, creditLinks] using hport
    · simpa [routerPlaces, inputVcs, switchBuffers, linkBuffers, srcQueues] using hport

theorem Received.returns_extOut {n : Nat} (h : Received P n s s') : Returns (.extOut n) s s' := by
  rcases h.delivers with hno | ⟨f, hf⟩
  · exact .inl hno.credit
  · refine .inr ⟨_, rfl, hf.credit, h.returns ?_⟩
    rw [hf.credit]
    exact insertCredit_ne_nil _ _

theorem Received.served {n : Nat} (h : Received P n s s') : Served P (.ni n) l s s' where
  sink heq := by
    obtain rfl : l = .extOut n := by
      cases l with
      | extOut m => exact congrArg _ (Consumer.ni.inj heq)
      | extIn m | int r d => cases heq
    exact ⟨h.arrives, h.returns_extOut⟩
  source heq := by
    obtain rfl : l = .extIn n := by
      cases l with
      | extIn m => exact congrArg _ (Consumer.ni.inj heq)
      | extOut m | int r d => cases heq
    exact ⟨h.credit, h.sends⟩
  notSink hne := by
    have hl : l ≠ .extOut n := by
      rintro rfl
      exact hne rfl
    exact ⟨h.touches.buf _ (by simpa [niPlaces, sendPlaces, niOutVcs] using hl),
      h.touches.credits _ (by simpa [niCredits] using hl)⟩
  notSource hne := by
    have hl : l ≠ .extIn n := by
      rintro rfl
      exact hne rfl
    exact ⟨h.touches.credits _ (by simpa [niCredits] using hl),
      h.touches.buf _ (by simpa [niPlaces, sendPlaces, niOutVcs] using hl)⟩

/-- The wakeup of a link: nothing is ready, or the head of the queue is put on the line. -/
def Carries {α : Type} [Timed α] (L : Nat) (sink : Consumer) (s s' : Net) (q ln q' ln' : List α) :
    Prop :=
  (dropReady s.now q = q ∧ q' = q ∧ ln' = ln) ∨
  ∃ a, q = a :: q' ∧ Timed.time a ≤ s.now ∧
    ln' = Timed.insert (Timed.setTime a (s.now + L)) ln ∧
    s'.events sink = (s.schedule sink (s.now + L)).events sink

section

variable (l : Link) (s : Net)

theorem linkWakeup_quiet : Quiet {.srcQueue l, .linkBuffer l} ∅ s (linkWakeup P l s) := by
  unfold linkWakeup
  split
  · exact .rfl'
  · split_ifs
    · exact ((Quiet.setBuf (mem_insert ..) ..).trans
        (.setBuf (mem_insert_of_mem _ (mem_singleton _)) ..)).trans (.schedule ..)
    · exact .rfl'

theorem linkWakeup_carries :
    Carries (P.linkLatency l) (P.linkConsumer l).consumer s (linkWakeup P l s)
      (s.buf (.srcQueue l)) (s.buf (.linkBuffer l)) ((linkWakeup P l s).buf (.srcQueue l))
      ((linkWakeup P l s).buf (.linkBuffer l)) := by
  unfold linkWakeup
  cases hq : s.buf (.srcQueue l) with
  | nil => exact .inl ⟨rfl, hq, rfl⟩
  | cons f rest =>
    by_cases ht : f.time ≤ s.now
    · simp only [ht, if_true]
      refine .inr ⟨f, ?_, ht, ?_, rfl⟩
      · simp [Net.insert]
      · simp [Net.insert, Timed.insert, Timed.setTime]
    · simp only [ht, if_false]
      exact .inl ⟨dropReady_of_not_le ht, hq, rfl⟩

theorem creditLinkWakeup_quiet : Quiet ∅ {.queue l, .link l} s (creditLinkWakeup P l s) := by
  unfold creditLinkWakeup
  split
  · exact .rfl'
  · split_ifs
    · exact ((Quiet.setCredits (mem_insert ..) ..).trans
        (.setCredits (mem_insert_of_mem _ (mem_singleton _)) ..)).trans (.schedule ..)
    · exact .rfl'

theorem creditLinkWakeup_carries :
    Carries (P.creditLatency l) (P.creditConsumer l).consumer s (creditLinkWakeup P l s)
      (s.credits (.queue l)) (s.credits (.link l)) ((creditLinkWakeup P l s).credits (.queue l))
      ((creditLinkWakeup P l s).credits (.link l)) := by
  unfold creditLinkWakeup
  cases hq : s.credits (.queue l) with
  | nil => exact .inl ⟨rfl, hq, rfl⟩
  | cons cr rest =>
    by_cases ht : cr.time ≤ s.now
    · simp only [ht, if_true]
      refine .inr ⟨cr, ?_, ht, ?_, rfl⟩
      · simp [Net.insertCredit]
      · simp [Net.insertCredit, Timed.insert, Timed.setTime]
    · simp only [ht, if_false]
      exact .inl ⟨dropReady_of_not_le ht, hq, rfl⟩

end

theorem Net.mem_events_of_prompt {L : Nat}
    (hev : ∀ c t, t ∈ s.scheduled c → s.now < t → t ∈ s.events c) (h : 1 ≤ L ∨ ¬ s.Woken c) :
    s.now + L ∈ (s.schedule c (s.now + L)).events c := by
  rcases Nat.eq_zero_or_pos L with rfl | hpos
  · have hw : ¬ s.Woken c := h.resolve_left (Nat.not_succ_le_zero 0)
    rw [Nat.add_zero, Net.schedule_events, update_self]
    split_ifs with hfresh
    · exact not_not.mp fun hno => hw ⟨hfresh, hno⟩
    · exact mem_cons_self ..
  · exact Net.mem_events_schedule c (hev c) (Nat.lt_add_of_pos_right hpos)

theorem Woke.carry {α : Type} [Timed α] {source carrier sink : Consumer} {q q' ln ln' : List α}
    {δ L : Nat} {C S : Prop} (h : Woke carrier s s') (hfresh : ¬ s.Woken carrier)
    (hdone : s'.Woken carrier) (hC : C) (hsink : sink ≠ carrier)
    (hev : ∀ c t, t ∈ (s.fire carrier).scheduled c → s.now < t → t ∈ (s.fire carrier).events c)
    (hcarries : Carries L sink (s.fire carrier) s' q ln q' ln') :
    DelayLine.Step δ L C S (s.delayLine source carrier sink q ln)
      (s'.delayLine source carrier sink q' ln') := by
  rcases hcarries with ⟨hready, hq, hl⟩ | ⟨a, hq, ha, hl, hdue⟩
  · exact .wait h.within (h.others _ hsink) hready hq hl
  · refine .carry hC h.within (h.others _ hsink) hfresh hdone hq ha rfl hl fun hp => ?_
    show s.now + L ∈ s'.events sink
    rw [hdue]
    apply Net.mem_events_of_prompt hev
    -- the wakeup of the link is not one of the sink
    have hevents : (s.fire carrier).events sink = s.events sink := update_of_ne hsink ..
    exact hp.imp_right fun hw hw' => hw ⟨hw'.1, hevents ▸ hw'.2⟩

theorem wake_forwarded {r : Nat} (hs : Reachable P s) (hempty : ∀ i, s.buf (.switchBuffer r i) = [])
    {rnd : Nat → Nat} (hen : Enabled P s (.wake (.router r) rnd))
    (hex : exec P (.wake (.router r) rnd) s = .ok s') : Forwarded P r (s.fire (.router r)) s' := by
  have hwait : ∀ l v, ∀ f ∈ (s.fire (.router r)).buf (.inputVc l v), f.time ≤ s.now ∧
      f.stage.1 = .sa := (inputVc_waits P).fire s _ ((inputVc_waits P).reachable hs)
  have hr : r < P.numRouters := mem_consumers.mp hen.1
  exact (routerWakeup_forwarded hr hwait hempty rnd).of_ok hex

def Label.Wakes : Label → Consumer → Prop
  | .wake c _, c' => c' = c
  | _, _ => False

theorem switchBuffer_eq_nil (hs : Reachable P s) : ∀ r i, s.buf (.switchBuffer r i) = [] := by
  induction hs with
  | init => exact fun _ _ => rfl
  | @step s s' lb hs hen hex ih =>
    intro r i
    cases lb with
    | tick => exact Except.ok.inj hex ▸ ih r i
    | protocol n op =>
      rw [((protocolStep_touches n op s).of_ok hex).1.buf _ fun h => h]
      exact ih r i
    | wake c rnd =>
      cases c with
      | router r' =>
        have hf := wake_forwarded hs (ih r') hen hex
        rcases eq_or_ne r r' with rfl | hne
        · exact hf.switch i
        · rw [hf.quiet.buf _ (by simp [routerPlaces, inputVcs, switchBuffers, linkBuffers, srcQueues,
            hne])]
          exact ih r i
      | ni n =>
        rw [(wake_received hs hex).touches.buf _ (by simp [niPlaces, sendPlaces, niOutVcs])]
        exact ih r i
      | link l =>
        rw [← Except.ok.inj hex, (linkWakeup_quiet l _).buf _ (by simp)]
        exact ih r i
      | creditLink l =>
        rw [← Except.ok.inj hex, (creditLinkWakeup_quiet l _).buf _ fun h => h]
        exact ih r i

def LinesStep (P : Params) (l : Link) (lb : Label) (s s' : Net) : Prop :=
  DelayLine.Step 1 (P.linkLatency l) (lb.Wakes (.link l)) (lb.Wakes (P.linkConsumer l).consumer)
    (s.flitLine P l) (s'.flitLine P l) ∧
  DelayLine.Step 0 (P.creditLatency l) (lb.Wakes (.creditLink l))
    (lb.Wakes (P.creditConsumer l).consumer) (s.creditLine P l) (s'.creditLine P l)

theorem Served.linesStep (hserved : Served P c l s s') (hl : l ∈ P.links) (hw : Woke c s s')
    (hfresh : ¬ s.Woken c) (hdone : s'.Woken c) (hc : ∀ l, .link l ≠ c ∧ .creditLink l ≠ c)
    (hev : ∀ c t, t ∈ s'.scheduled c → s'.now < t → t ∈ s'.events c) (rnd : Nat → Nat) :
    LinesStep P l (.wake c rnd) s s' := by
  have hends : (P.creditConsumer l).consumer ≠ (P.linkConsumer l).consumer := fun h =>
    creditConsumer_ne_linkConsumer hl (Params.Sink.consumer_inj h)
  have hnext : ∀ c', s.now + 1 ∈ s'.scheduled c' → s.now + 1 ∈ s'.events c' := fun c' h =>
    hev c' _ h (hw.now ▸ Nat.lt_succ_self _)
  constructor
  · apply hw.serve hfresh hdone (hc l).1 hends
    · exact fun h => (hserved.source h).2.imp_right fun ⟨f, ht, hb, hsched⟩ =>
        ⟨f, ht, hb, hnext _ hsched⟩
    · exact fun h => (hserved.notSource h).2
    · exact fun h => ⟨h, (hserved.sink h).1⟩
    · exact fun h => (hserved.notSink h).1
  · apply hw.serve hfresh hdone (hc l).2 hends.symm
    · exact fun h => (hserved.sink h).2.imp_right fun ⟨cr, ht, hb, hsched⟩ =>
        ⟨cr, ht, hb, hnext _ hsched⟩
    · exact fun h => (hserved.notSink h).2
    · exact fun h => ⟨h, (hserved.source h).1⟩
    · exact fun h => (hserved.notSource h).1

theorem Woke.linesStep {lb : Label} (hw : Woke c s s') (hcar : .link l ≠ c ∧ .creditLink l ≠ c)
    (hends : (P.linkConsumer l).consumer ≠ c ∧ (P.creditConsumer l).consumer ≠ c)
    (hbuf : s'.buf (.srcQueue l) = s.buf (.srcQueue l) ∧
      s'.buf (.linkBuffer l) = s.buf (.linkBuffer l))
    (hcredits : s'.credits (.queue l) = s.credits (.queue l) ∧
      s'.credits (.link l) = s.credits (.link l)) : LinesStep P l lb s s' :=
  ⟨hw.idle hcar.1 hends.1 hbuf.1 hbuf.2, hw.idle hcar.2 hends.2 hcredits.1 hcredits.2⟩

theorem tick_linesStep (hl : l ∈ P.links) (hdone : CycleDone P s) :
    LinesStep P l .tick s { s with now := s.now + 1 } := by
  have hlink : Consumer.link l ∈ P.consumers := mem_consumers.mpr hl
  have hcredit : Consumer.creditLink l ∈ P.consumers := mem_consumers.mpr hl
  obtain ⟨hsink, hsource⟩ := consumer_mem_of_link hl
  exact ⟨.tick rfl (hdone _ hlink) (hdone _ hsink) (fun _ h => h) (fun _ h => h) rfl rfl,
    .tick rfl (hdone _ hcredit) (hdone _ hsource) (fun _ h => h) (fun _ h => h) rfl rfl⟩

section Links

variable {l' : Link} {rnd : Nat → Nat}

theorem linkWakeup_linesStep (hw : Woke (.link l') s s') (hfresh : ¬ s.Woken (.link l'))
    (hdone : s'.Woken (.link l'))
    (hev : ∀ c t, t ∈ (s.fire (.link l')).scheduled c → s.now < t → t ∈ (s.fire (.link l')).events c)
    (hs' : linkWakeup P l' (s.fire (.link l')) = s') :
    LinesStep P l (.wake (.link l') rnd) s s' := by
  have hsink := (consumer_ne_link (l := l') (P.linkConsumer l)).1
  have hsource := (consumer_ne_link (l := l') (P.creditConsumer l)).1
  have hq := linkWakeup_quiet (P := P) l' (s.fire (.link l'))
  rw [hs'] at hq
  rcases eq_or_ne l l' with rfl | hne
  · have hcarries := linkWakeup_carries (P := P) l (s.fire (.link l))
    rw [hs'] at hcarries
    exact ⟨hw.carry hfresh hdone rfl hsink hev hcarries,
      hw.idle nofun hsource (hq.credits _ fun h => h) (hq.credits _ fun h => h)⟩
  · exact hw.linesStep ⟨by simpa using hne, nofun⟩ ⟨hsink, hsource⟩
      ⟨hq.buf _ (by simpa using hne), hq.buf _ (by simpa using hne)⟩
      ⟨hq.credits _ fun h => h, hq.credits _ fun h => h⟩

theorem creditLinkWakeup_linesStep (hw : Woke (.creditLink l') s s')
    (hfresh : ¬ s.Woken (.creditLink l')) (hdone : s'.Woken (.creditLink l'))
    (hev : ∀ c t, t ∈ (s.fire (.creditLink l')).scheduled c → s.now < t →
      t ∈ (s.fire (.creditLink l')).events c)
    (hs' : creditLinkWakeup P l' (s.fire (.creditLink l')) = s') :
    LinesStep P l (.wake (.creditLink l') rnd) s s' := by
  have hsource := (consumer_ne_link (l := l') (P.linkConsumer l)).2
  have hsink := (consumer_ne_link (l := l') (P.creditConsumer l)).2
  have hq := creditLinkWakeup_quiet (P := P) l' (s.fire (.creditLink l'))
  rw [hs'] at hq
  rcases eq_or_ne l l' with rfl | hne
  · have hcarries := creditLinkWakeup_carries (P := P) l (s.fire (.creditLink l))
    rw [hs'] at hcarries
    exact ⟨hw.idle nofun hsource (hq.buf _ fun h => h) (hq.buf _ fun h => h),
      hw.carry hfresh hdone rfl hsink hev hcarries⟩
  · exact hw.linesStep ⟨nofun, by simpa using hne⟩ ⟨hsource, hsink⟩
      ⟨hq.buf _ fun h => h, hq.buf _ fun h => h⟩
      ⟨hq.credits _ (by simpa using hne), hq.credits _ (by simpa using hne)⟩

end Links

theorem lines_step (hs : Reachable P s) (hl : l ∈ P.links) {lb : Label} (hen : Enabled P s lb)
    (hex : exec P lb s = .ok s') : LinesStep P l lb s s' := by
  cases lb with
  | tick =>
    rw [← Except.ok.inj hex]
    exact tick_linesStep hl hen
  | protocol n op =>
    obtain ⟨ht, -⟩ := (protocolStep_touches n op s).of_ok hex
    have hm : Moves P (.ni n) s s' := (exec_outcome hen).of_ok hex
    have hw : Woke (.ni n) s s' := .moves hm
    -- the protocol has wakeups scheduled but none run
    exact ⟨.idle hw.within hm.events_mono hm.events_mono (ht.buf _ fun h => h) (ht.buf _ fun h => h),
      .idle hw.within hm.events_mono hm.events_mono (ht.credits _ fun h => h)
        (ht.credits _ fun h => h)⟩
  | wake c rnd =>
    obtain ⟨hw, hfresh, hdone⟩ := wake_woke hs hen hex
    have hev := (events_of_scheduled P).reachable (hs.step _ hen hex)
    have hev₀ := (events_of_scheduled P).fire s c ((events_of_scheduled P).reachable hs)
    cases c with
    | router r =>
      have h := (wake_forwarded hs (switchBuffer_eq_nil hs r) hen hex).served
        (mem_consumers.mp hen.1) hl
      have hserved : Served P (.router r) l s s' := ⟨h.sink, h.source, h.notSink, h.notSource⟩
      exact hserved.linesStep hl hw hfresh hdone (fun _ => ⟨nofun, nofun⟩) hev rnd
    | ni n =>
      have h := (wake_received hs hex).served (l := l)
      have hserved : Served P (.ni n) l s s' := ⟨h.sink, h.source, h.notSink, h.notSource⟩
      exact hserved.linesStep hl hw hfresh hdone (fun _ => ⟨nofun, nofun⟩) hev rnd
    | link l' => exact linkWakeup_linesStep hw hfresh hdone hev₀ (Except.ok.inj hex)
    | creditLink l' => exact creditLinkWakeup_linesStep hw hfresh hdone hev₀ (Except.ok.inj hex)

theorem queued (hs : Reachable P s) (hl : l ∈ P.links) :
    DelayLine.Queued 1 (s.flitLine P l) ∧ DelayLine.Queued 0 (s.creditLine P l) := by
  induction hs with
  | init => exact ⟨.of_nil rfl, .of_nil rfl⟩
  | step lb hs hen hex ih =>
    have hstep := lines_step hs hl hen hex
    exact ⟨ih.1.step (le_refl 1) hstep.1, ih.2.step (Nat.zero_le 1) hstep.2⟩

/-- A step moves nothing over a link with latency `0` whose consumer has been woken in the cycle. -/
def Prompt (P : Params) (s : Net) : Label → Prop
  | .wake (.link l) _ => 1 ≤ P.linkLatency l ∨ ¬ s.Woken (P.linkConsumer l).consumer
  | .wake (.creditLink l) _ => 1 ≤ P.creditLatency l ∨ ¬ s.Woken (P.creditConsumer l).consumer
  | _ => True

theorem Prompt.link {lb : Label} (h : Prompt P s lb) (hlb : lb.Wakes (.link l)) :
    1 ≤ P.linkLatency l ∨ ¬ (s.flitLine P l).sinkDone := by
  cases lb with
  | wake c rnd =>
    obtain rfl : .link l = c := hlb
    exact h
  | protocol n op | tick => exact hlb.elim

theorem Prompt.creditLink {lb : Label} (h : Prompt P s lb) (hlb : lb.Wakes (.creditLink l)) :
    1 ≤ P.creditLatency l ∨ ¬ (s.creditLine P l).sinkDone := by
  cases lb with
  | wake c rnd =>
    obtain rfl : .creditLink l = c := hlb
    exact h
  | protocol n op | tick => exact hlb.elim

theorem timely (hs : ReachableBy P (Prompt P) s) (hl : l ∈ P.links) :
    DelayLine.Timely (P.linkLatency l) (s.flitLine P l) ∧
      DelayLine.Timely (P.creditLatency l) (s.creditLine P l) := by
  induction hs with
  | init => exact ⟨.of_nil rfl, .of_nil rfl⟩
  | step lb hs hen hp hex ih =>
    have hstep := lines_step hs.reachable hl hen hex
    exact ⟨ih.1.step hp.link hstep.1, ih.2.step hp.creditLink hstep.2⟩

/-- **No flit or credit is left behind on a link**: queues hold one entry at most, moved in the next
cycle, and if no link with latency `0` is woken after its consumer, all are taken when due. -/
theorem links_on_time (hs : Reachable P s) : (CycleDone P s → ∀ l ∈ P.links,
      ((s.buf (.srcQueue l)).length ≤ 1 ∧
        (s.buf (.srcQueue l) ≠ [] → s.now + 1 ∈ s.events (.link l))) ∧
      (s.credits (.queue l)).length ≤ 1 ∧
        (s.credits (.queue l) ≠ [] → s.now + 1 ∈ s.events (.creditLink l))) ∧
    (ReachableBy P (Prompt P) s →
      (CycleDone P s → ∀ l ∈ P.links, (∀ f ∈ s.buf (.linkBuffer l), s.now < f.time) ∧
        ∀ cr ∈ s.credits (.link l), s.now < cr.time) ∧
      ∀ lb s', Enabled P s lb → Prompt P s lb → exec P lb s = .ok s' → ∀ l ∈ P.links,
        DelayLine.Carried (P.linkLatency l) (lb.Wakes (.link l))
          (lb.Wakes (P.linkConsumer l).consumer) (s.flitLine P l) (s'.flitLine P l) ∧
        DelayLine.Carried (P.creditLatency l) (lb.Wakes (.creditLink l))
          (lb.Wakes (P.creditConsumer l).consumer) (s.creditLine P l) (s'.creditLine P l)) := by
  refine ⟨fun hdone l hl => ?_, fun hby => ⟨fun hdone l hl => ?_, fun lb s' hen hp hex l hl => ?_⟩⟩
  · obtain ⟨hflit, hcredit⟩ := queued hs hl
    have hlink : s.now ∉ s.events (.link l) := hdone _ (mem_consumers.mpr hl)
    have hcreditLink : s.now ∉ s.events (.creditLink l) := hdone _ (mem_consumers.mpr hl)
    exact ⟨⟨hflit.length_le_one hlink, hflit.carrier_next hlink⟩,
      hcredit.length_le_one hcreditLink, hcredit.carrier_next hcreditLink⟩
  · obtain ⟨hflit, hcredit⟩ := timely hby hl
    obtain ⟨hsink, hsource⟩ := consumer_mem_of_link hl
    exact ⟨hflit.lt_time (hdone _ hsink), hcredit.lt_time (hdone _ hsource)⟩
  · obtain ⟨hflit, hcredit⟩ := timely hby hl
    have hstep := lines_step hs hl hen hex
    exact ⟨hflit.carried hp.link hstep.1, hcredit.carried hp.creditLink hstep.2⟩

theorem prompt_of_latency (hlink : ∀ l, 1 ≤ P.linkLatency l) (hcredit : ∀ l, 1 ≤ P.creditLatency l)
    (s : Net) (lb : Label) : Prompt P s lb := by
  cases lb with
  | wake c rnd =>
    cases c with
    | link l => exact .inl (hlink l)
    | creditLink l => exact .inl (hcredit l)
    | router r | ni n => trivial
  | protocol n op | tick => trivial

/-- The flit sent in the first cycle is alone in the queue, and the link moves it in the second. -/
theorem links_on_time_pair :
    (∃ s, run .pair (pairRun.take 3) (.init .pair) = some s ∧ CycleDone .pair s ∧
      s.buf (.srcQueue (.extIn 0)) ≠ [] ∧ s.now + 1 ∈ s.events (.link (.extIn 0))) ∧
    ∃ s s' f, run .pair (pairRun.take 4) (.init .pair) = some s ∧
      exec .pair (.wake (.link (.extIn 0)) fun _ => 0) s = .ok s' ∧
      s.buf (.srcQueue (.extIn 0)) = f :: s'.buf (.srcQueue (.extIn 0)) ∧
      s'.buf (.linkBuffer (.extIn 0)) =
        s.buf (.linkBuffer (.extIn 0)) ++ [{ f with time := s.now + 1 }] := by
  have hfirst : (run .pair (pairRun.take 3) (.init .pair)).map (fun s => (decide (CycleDone .pair s),
      (s.buf (.srcQueue (.extIn 0))).length)) = some (true, 1) := by
    decide +kernel
  have hsecond : (run .pair (pairRun.take 4) (.init .pair)).bind (fun s =>
      (exec .pair (.wake (.link (.extIn 0)) fun _ => 0) s).toOption.map fun s' =>
        (decide (Enabled .pair s (.wake (.link (.extIn 0)) fun _ => 0)),
          (s.buf (.linkBuffer (.extIn 0))).length, (s'.buf (.linkBuffer (.extIn 0))).length)) =
      some (true, 0, 1) := by
    decide +kernel
  have hprompt : ∀ s lb, Prompt .pair s lb :=
    prompt_of_latency (fun _ => le_refl 1) fun _ => le_refl 1
  have hlink : Link.extIn 0 ∈ Params.pair.links := by decide
  constructor
  · obtain ⟨s, hs, hval⟩ := Option.map_eq_some_iff.mp hfirst
    obtain ⟨hdone, hlen⟩ := Prod.mk.inj hval
    have hne : s.buf (.srcQueue (.extIn 0)) ≠ [] := ne_nil_of_length_pos (by omega)
    exact ⟨s, hs, of_decide_eq_true hdone, hne, ((links_on_time (reachable_of_run .init hs)).1
      (of_decide_eq_true hdone) _ hlink).1.2 hne⟩
  · obtain ⟨s, hs, hstep⟩ := Option.bind_eq_some_iff.mp hsecond
    obtain ⟨s', hs', hval⟩ := Option.map_eq_some_iff.mp hstep
    obtain ⟨hen, hlens⟩ := Prod.mk.inj hval
    obtain ⟨hlen, hlen'⟩ := Prod.mk.inj hlens
    have hby : ReachableBy .pair (Prompt .pair) s :=
      reachableBy_of_run .init (fun lb _ s => hprompt s lb) hs
    have hcarried := ((links_on_time hby.reachable).2 hby).2 _ s' (of_decide_eq_true hen)
      (hprompt ..) (eq_ok_of_toOption hs') _ hlink
    rcases hcarried.1 with hkept | ⟨-, hq, hl⟩ | ⟨hsink, -, -⟩
    · rw [show s'.buf (.linkBuffer (.extIn 0)) = s.buf (.linkBuffer (.extIn 0)) from hkept,
        hlen] at hlen'
      cases hlen'
    · exact ⟨s, s', _, hs, eq_ok_of_toOption hs', hq, hl⟩
    · cases hsink

def Params.hubNoLatency : Params :=
  { Params.hub 0 with
    linkLatency := fun _ => 0
    creditLatency := fun _ => 0 }

def hubNoLatencyRun : List Label :=
  let m : Message := ⟨0, 0, 0, 0, .singleton 2⟩
  let zero : Nat → Nat := fun _ => 0
  [.protocol 0 (.send 0 m 1 0), .protocol 1 (.send 0 m 1 0), .tick, .wake (.ni 0) zero,
    .wake (.ni 1) zero, .tick, .wake (.link (.extIn 0)) zero, .wake (.router 0) zero]

/-- A link with latency `0` that is woken after the router leaves its flit on the link. -/
theorem link_left_behind : ∃ s s' f,
    run .hubNoLatency hubNoLatencyRun (.init .hubNoLatency) = some s ∧
    Enabled .hubNoLatency s (.wake (.link (.extIn 1)) fun _ => 0) ∧
    exec .hubNoLatency (.wake (.link (.extIn 1)) fun _ => 0) s = .ok s' ∧
    s.buf (.linkBuffer (.extIn 1)) = [] ∧ s'.buf (.linkBuffer (.extIn 1)) = [f] ∧
    f.time = s.now + Params.hubNoLatency.linkLatency (.extIn 1) ∧ s'.now = f.time ∧
    CycleDone .hubNoLatency s' := by
  have hrun : (run .hubNoLatency hubNoLatencyRun (.init .hubNoLatency)).bind (fun s =>
      (exec .hubNoLatency (.wake (.link (.extIn 1)) fun _ => 0) s).toOption.map fun s' =>
        (decide (Enabled .hubNoLatency s (.wake (.link (.extIn 1)) fun _ => 0)),
          decide (CycleDone .hubNoLatency s'), (s.buf (.linkBuffer (.extIn 1))).length,
          (s'.buf (.linkBuffer (.extIn 1))).map Flit.time, s.now, s'.now)) =
      some (true, true, 0, [2], 2, 2) := by
    decide +kernel
  obtain ⟨s, hs, hstep⟩ := Option.bind_eq_some_iff.mp hrun
  obtain ⟨s', hs', hval⟩ := Option.map_eq_some_iff.mp hstep
  simp only [Prod.mk.injEq, decide_eq_true_eq, length_eq_zero_iff] at hval
  obtain ⟨hen, hdone, hnil, htimes, hnow, hnow'⟩ := hval
  obtain ⟨f, hf, htime⟩ := map_eq_singleton_iff.mp htimes
  refine ⟨s, s', f, hs, hen, eq_ok_of_toOption hs', hnil, hf, ?_, ?_, hdone⟩
  · rw [htime, hnow]
    rfl
  · rw [htime, hnow']

end NocSwap
