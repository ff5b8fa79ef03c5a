import NocSwap.Ruby.MemWriteback
import NocSwap.Sim.Correct.EventQueue

/-!
# What memory write-back does to the future
-/

namespace NocSwap.Sim

open Function List

def Event.Live (x : Event) : Prop := x.scheduled = true ∧ x.initialized = true

theorem Event.Live.release {x : Event} (h : x.Live) : x.release = x := by
  unfold Event.release
  rw [if_neg fun hout => absurd (hout.2.symm.trans h.1) Bool.false_ne_true]

namespace PriorityQueue

variable {a : PriorityQueue} {e : Nat} {l : List Nat}

structure Live (a : PriorityQueue) : Prop where
  nodup : a.queue.Nodup
  live : ∀ e ∈ a.queue, (a.events e).Live

namespace Live

section

variable (h : a.Live)
include h

theorem out (x : Event) :
    Live { a with events := update a.events e x, queue := a.queue.erase e } where
  nodup := h.nodup.erase e
  live := by
    intro e' he'
    obtain ⟨hne, hmem⟩ := h.nodup.mem_erase_iff.mp he'
    show (update a.events e x e').Live
    rw [update_of_ne hne]
    exact h.live e' hmem

theorem into (hout : e ∉ a.queue) {x : Event} (hx : x.Live) :
    ((a.modify e fun _ => x).insert e).Live where
  nodup := (perm_orderedInsert ..).nodup_iff.mpr (nodup_cons.mpr ⟨hout, h.nodup⟩)
  live := by
    intro e' he'
    show (update a.events e x e').Live
    rcases (mem_orderedInsert _).mp he' with rfl | hmem
    · rwa [update_self]
    · rw [update_of_ne (ne_of_mem_of_not_mem hmem hout)]
      exact h.live e' hmem

theorem modify {f : Event → Event} (hf : (a.events e).Live → (f (a.events e)).Live) :
    (a.modify e f).Live where
  nodup := h.nodup
  live := by
    intro e' he'
    show (update a.events e _ e').Live
    rcases eq_or_ne e' e with rfl | hne
    · rw [update_self]
      exact hf (h.live e' he')
    · rw [update_of_ne hne]
      exact h.live e' he'

theorem call (c : EventQueue.Call) : Outcome (a.call c) Live fun _ => True := by
  cases c with
  | schedule event when =>
    simp only [PriorityQueue.call, schedule, outcome_do]
    refine fun _ hs hi => h.into (fun hmem => ?_) ⟨rfl, hi⟩
    rw [(h.live event hmem).1] at hs
    cases hs
  | deschedule event =>
    simp only [PriorityQueue.call, deschedule, outcome_do]
    exact fun _ _ => h.out _
  | reschedule event when always =>
    simp only [PriorityQueue.call, reschedule, outcome_do]
    refine fun _ _ hi => Live.into (a := a.remove event) ?_ h.nodup.not_mem_erase ⟨rfl, hi⟩
    have hrest := h.out (e := event) (a.events event)
    rwa [update_eq_self] at hrest
  | squash event => exact h.modify fun hx => hx

theorem exec (op : EventQueue.Op) : Outcome (a.exec op) Live fun _ => True := by
  cases op with
  | call c => exact h.call c
  | serviceOne process =>
    simp only [PriorityQueue.exec, serviceOne, outcome_do]
    intro event hhead
    obtain ⟨l, hq⟩ : ∃ l, a.queue = event :: l := List.head?_eq_some_iff.mp hhead
    have hpop : (a.pop event).Live := by
      have hout := h.out (e := event) { a.events event with scheduled := false }
      rw [hq, erase_cons_head] at hout
      unfold pop PriorityQueue.modify
      rwa [hq]
    -- an event that is in the list again is not released
    have hrelease : ∀ a : PriorityQueue, a.Live → (a.modify event Event.release).Live :=
      fun a ha => ha.modify fun hx => hx.release.symm ▸ hx
    unfold serve
    rw [outcome_ite]
    refine ⟨fun _ => hpop.modify fun hx => ?_, fun _ => ?_⟩
    · have hx' : Event.Live { (a.pop event).events event with squashed := false } := hx
      rwa [hx'.release]
    · rw [outcome_bind]
      refine Outcome.mono (Outcome.foldlM (I := Live) process (fun c _ a ha => ha.call c) _ ?_)
        (fun a ha => ?_) fun _ he => he
      · exact ⟨hpop.nodup, hpop.live⟩
      · rw [outcome_ite]
        exact ⟨fun _ => ha, fun _ => hrelease a ha⟩

theorem run (ops : List EventQueue.Op) : Outcome (a.run ops) Live fun _ => True :=
  Outcome.foldlM ops (fun op _ _ ha => ha.exec op) a h

end

end Live

end PriorityQueue

namespace EventQueue

def Call.event : Call → Nat
  | .schedule event _ => event
  | .deschedule event => event
  | .reschedule event _ _ => event
  | .squash event => event

def Op.events : Op → List Nat
  | .call c => [c.event]
  | .serviceOne process => process.map Call.event

end EventQueue

namespace PriorityQueue

variable {a : PriorityQueue} {e : Nat} {l : List Nat}

def Outside (e : Nat) (x : Event) (a : PriorityQueue) : Prop := a.events e = x ∧ e ∉ a.queue

namespace Outside

variable {x : Event} {event : Nat}

section

variable (h : Outside e x a)
include h

theorem modify (hne : e ≠ event) (f : Event → Event) : Outside e x (a.modify event f) :=
  ⟨(update_of_ne hne ..).trans h.1, h.2⟩

theorem insert (hne : e ≠ event) : Outside e x (a.insert event) := by
  refine ⟨h.1, fun hmem => ?_⟩
  rcases (mem_orderedInsert _).mp hmem with heq | hmem
  · exact hne heq
  · exact h.2 hmem

theorem remove : Outside e x (a.remove event) :=
  ⟨h.1, fun hmem => h.2 (mem_of_mem_erase hmem)⟩

theorem call {c : EventQueue.Call} (hc : e ≠ c.event) :
    Outcome (a.call c) (Outside e x) fun _ => True := by
  cases c with
  | schedule event when =>
    simp only [PriorityQueue.call, schedule, outcome_do]
    exact fun _ _ _ => (h.modify hc _).insert hc
  | deschedule event =>
    simp only [PriorityQueue.call, deschedule, outcome_do]
    exact fun _ _ => h.remove.modify hc _
  | reschedule event when always =>
    simp only [PriorityQueue.call, reschedule, outcome_do]
    exact fun _ _ _ => (h.remove.modify hc _).insert hc
  | squash event => exact h.modify hc _

theorem exec {op : EventQueue.Op} (hop : e ∉ op.events) :
    Outcome (a.exec op) (Outside e x) fun _ => True := by
  cases op with
  | call c => exact h.call (ne_of_not_mem_cons hop)
  | serviceOne process =>
    simp only [PriorityQueue.exec, serviceOne, outcome_do]
    intro event hhead
    have hne : e ≠ event := fun heq => h.2 (heq ▸ mem_of_mem_head? hhead)
    have hpop : Outside e x (a.pop event) :=
      ⟨(update_of_ne hne ..).trans h.1, fun hmem => h.2 (mem_of_mem_tail hmem)⟩
    unfold serve
    rw [outcome_ite]
    refine ⟨fun _ => hpop.modify hne _, fun _ => ?_⟩
    rw [outcome_bind]
    refine Outcome.mono (Outcome.foldlM (I := Outside e x) process
      (fun c hc a ha => ha.call fun heq => ?_) _ ?_) (fun a ha => ?_) fun _ he => he
    · exact hop (mem_map.mpr ⟨c, hc, heq.symm⟩)
    · exact hpop
    · rw [outcome_ite]
      exact ⟨fun _ => ha, fun _ => ha.modify hne _⟩

theorem run {ops : List EventQueue.Op}
    (hops : ∀ op ∈ ops, e ∉ op.events) : Outcome (a.run ops) (Outside e x) fun _ => True :=
  Outcome.foldlM ops (fun op hop _ ha => ha.exec (hops op hop)) a h

end

end Outside

theorem serviceOne_nil (hq : a.queue = e :: l) : Outcome (a.serviceOne [])
    (fun a' => a'.queue = l ∧ ∀ e' ≠ e, a'.events e' = a.events e') fun _ => False := by
  simp only [serviceOne, hq, List.head?_cons, orFail, outcome_do, outcome_ok, serve, pop,
    tail_cons, foldlM_nil, outcome_ite, PriorityQueue.modify]
  simp +contextual

end PriorityQueue

namespace EventQueue

variable {q : EventQueue} {a : PriorityQueue} {fuel n : Nat}

theorem descheduleAll_refines (h : Refines q a) (hlive : a.Live) (hf : a.queue.length ≤ fuel)
    (hn : a.queue.length < n) :
    ∃ q' a', q.descheduleAll fuel n = .ok
        ((a.queue.filter fun e => !(a.events e).managed).map fun e => (e, (a.events e).when), q') ∧
      Refines q' a' ∧ a'.queue = [] ∧ (∀ e ∉ a.queue, a'.events e = a.events e) ∧
      ∀ e ∈ a.queue, a'.events e =
        Event.release { a.events e with squashed := false, scheduled := false } := by
  obtain ⟨n, rfl⟩ : ∃ k, n = k + 1 := ⟨n - 1, by omega⟩
  induction hl : a.queue generalizing q a n with
  | nil =>
    refine ⟨q, a, ?_, h, hl, fun _ _ => rfl, fun e he => nomatch he⟩
    rw [descheduleAll, h.holds.head_eq, hl]
    rfl
  | cons e l ih =>
    obtain ⟨hs, hi⟩ := hlive.live e (hl ▸ mem_cons_self ..)
    have hnodup := hlive.nodup
    rw [hl, nodup_cons] at hnodup
    have hrun : a.deschedule e = .ok ((a.remove e).modify e fun x =>
        Event.release { x with squashed := false, scheduled := false }) := by
      simp [PriorityQueue.deschedule, require, hs, hi]
      rfl
    obtain ⟨q₁, hq₁, h₁, -, -⟩ := (deschedule_refines h hf e).exists_ok hrun
    have hqueue : ((a.remove e).modify e fun x =>
        Event.release { x with squashed := false, scheduled := false }).queue = l := by
      show a.queue.erase e = l
      rw [hl, erase_cons_head]
    have hother : ∀ e' ≠ e, ((a.remove e).modify e fun x =>
        Event.release { x with squashed := false, scheduled := false }).events e' = a.events e' :=
      fun e' hne => update_of_ne hne ..
    have hmem : ∀ e' ∈ l, e' ≠ e := fun e' he' => ne_of_mem_of_not_mem he' hnodup.1
    rw [hl, length_cons] at hf hn
    obtain ⟨n, rfl⟩ : ∃ k, n = k + 1 := ⟨n - 1, by omega⟩
    obtain ⟨q', a', hrest, h', hnil, hout, hin⟩ := ih h₁ (hlive.out _)
      (by rw [hqueue]; omega) n (by rw [hqueue]; omega) hqueue
    refine ⟨q', a', ?_, h', hnil, fun e' he' => ?_, fun e' he' => ?_⟩
    · rw [descheduleAll, h.holds.head_eq, hl]
      show (q.deschedule fuel e >>= _) = _
      rw [hq₁]
      show (q₁.descheduleAll fuel (n + 1) >>= _) = _
      rw [hrest, h.events, filter_congr fun e' he' => by rw [hother e' (hmem e' he')],
        map_congr_left fun e' he' => by rw [hother e' (hmem e' (mem_filter.mp he').1)]]
      cases hman : (a.events e).managed with
      | true =>
        rw [filter_cons_of_neg (by simp [hman])]
        rfl
      | false =>
        rw [filter_cons_of_pos (by simp [hman])]
        rfl
    · rw [mem_cons, not_or] at he'
      rw [hout e' he'.2, hother e' he'.1]
    · rcases mem_cons.mp he' with rfl | he'
      · rw [hout e' hnodup.1]
        exact update_self ..
      · rw [hin e' he', hother e' (hmem e' he')]

theorem restore_refines {events : Nat → Event} {l : List Nat} (h : Refines q a)
    (hnil : a.queue = []) (hf : l.length ≤ fuel) (hnodup : l.Nodup)
    (hsorted : l.Pairwise (Before events)) (hdue : ∀ e ∈ l, a.curTick ≤ (events e).when)
    (hback : ∀ e ∈ l, a.events e = { events e with squashed := false, scheduled := false } ∧
      (events e).Live ∧ (events e).onQueue = true) :
    ∃ q' a', (l.map fun e => (e, (events e).when)).reverse.foldlM
        (fun q e => q.schedule fuel e.1 e.2) q = .ok q' ∧
      Refines q' a' ∧ a'.queue = l ∧ a'.curTick = a.curTick ∧ (∀ e ∉ l, a'.events e = a.events e) ∧
      ∀ e ∈ l, a'.events e = { events e with squashed := false } := by
  induction l with
  | nil => exact ⟨q, a, rfl, h, hnil, rfl, fun _ _ => rfl, fun e he => nomatch he⟩
  | cons e l ih =>
    rw [pairwise_cons] at hsorted
    rw [nodup_cons] at hnodup
    obtain ⟨q₁, a₁, hrun, h₁, hl, hct, hout, hin⟩ := ih (Nat.le_of_succ_le hf) hnodup.2 hsorted.2
      (fun e' he' => hdue e' (mem_cons_of_mem _ he'))
      fun e' he' => hback e' (mem_cons_of_mem _ he')
    obtain ⟨hev, ⟨hs, hi⟩, hon⟩ := hback e (mem_cons_self ..)
    have hev₁ : a₁.events e = { events e with squashed := false, scheduled := false } :=
      (hout e hnodup.1).trans hev
    have hsched : a₁.schedule e (events e).when = .ok ((a₁.modify e fun x =>
        { x with when := (events e).when, onQueue := true, scheduled := true }).insert e) := by
      have hle : a₁.curTick ≤ (events e).when := hct ▸ hdue e (mem_cons_self ..)
      simp [PriorityQueue.schedule, require, hle, hev₁, hi]
      rfl
    have hnew : { a₁.events e with when := (events e).when, onQueue := true, scheduled := true } =
        { events e with squashed := false } := by
      rw [hev₁]
      simp only [hon, hs]
    have hevents : ∀ e', (a₁.modify e fun x =>
        { x with when := (events e).when, onQueue := true, scheduled := true }).events e' =
          if e' = e then { events e with squashed := false } else a₁.events e' := by
      intro e'
      simp only [PriorityQueue.modify, update_apply, hnew]
    have hf₁ : a₁.queue.length ≤ fuel := by
      rw [hl]
      exact Nat.le_of_succ_le hf
    obtain ⟨q', hq', h', -, -⟩ := (schedule_refines h₁ hf₁ e (events e).when).exists_ok hsched
    refine ⟨q', _, ?_, h', ?_, hct, fun e' he' => ?_, fun e' he' => ?_⟩
    · rw [map_cons, reverse_cons, foldlM_append, hrun]
      show (q₁.schedule fuel e (events e).when >>= pure) = _
      rw [bind_pure, hq']
    · show a₁.queue.orderedInsert (Before _) e = e :: l
      rw [hl]
      cases l with
      | nil => rfl
      | cons e₁ l =>
        apply orderedInsert_cons_of_le
        have hne : e₁ ≠ e := fun heq => hnodup.1 (heq ▸ mem_cons_self ..)
        unfold Before
        rw [hevents, hevents, if_pos rfl, if_neg hne, hin e₁ (mem_cons_self ..)]
        exact hsorted.1 e₁ (mem_cons_self ..)
    · rw [mem_cons, not_or] at he'
      rw [PriorityQueue.insert, hevents, if_neg he'.1, hout e' he'.2]
    · rw [PriorityQueue.insert, hevents]
      rcases mem_cons.mp he' with rfl | he'
      · rw [if_pos rfl]
      · rw [if_neg (ne_of_mem_of_not_mem he' hnodup.1), hin e' he']

theorem serviced_refines (h : Refines q a) (hf : a.queue.length ≤ fuel) (hn : a.queue.length < n) :
    q.serviced fuel n = .ok ((a.queue.filter fun e => !(a.events e).squashed).map fun e =>
      (e, (a.events e).when)) := by
  obtain ⟨n, rfl⟩ : ∃ k, n = k + 1 := ⟨n - 1, by omega⟩
  induction hl : a.queue generalizing q a n with
  | nil =>
    rw [serviced, h.holds.head_eq, hl]
    rfl
  | cons e l ih =>
    have hnodup := h.valid.nodup
    rw [hl, nodup_cons] at hnodup
    obtain ⟨a₁, hrun, hqueue, hother⟩ := (PriorityQueue.serviceOne_nil hl).exists_ok
    obtain ⟨q₁, hq₁, h₁, -, -⟩ := (serviceOne_refines h [] hf).exists_ok hrun
    rw [hl, length_cons] at hf hn
    obtain ⟨n, rfl⟩ : ∃ k, n = k + 1 := ⟨n - 1, by omega⟩
    have hrest := ih h₁ (by rw [hqueue]; omega) n (by rw [hqueue]; omega) hqueue
    have hsame : ∀ e' ∈ l, a₁.events e' = a.events e' :=
      fun e' he' => hother e' (ne_of_mem_of_not_mem he' hnodup.1)
    rw [serviced, h.holds.head_eq, hl]
    show (q.serviceOne fuel [] >>= _) = _
    rw [hq₁]
    show (q₁.serviced fuel (n + 1) >>= _) = _
    rw [hrest, h.events, filter_congr fun e' he' => by rw [hsame e' he'],
      map_congr_left fun e' he' => by rw [hsame e' (mem_filter.mp he').1]]
    cases hsq : (a.events e).squashed with
    | true =>
      rw [filter_cons_of_neg (by simp [hsq])]
      rfl
    | false =>
      rw [filter_cons_of_pos (by simp [hsq])]
      rfl

/-- **Memory write-back and the future.** The write-back returns, and the same events that do not
auto-delete are processed at the same ticks in the same order, if and only if none is squashed. -/
theorem memWriteback_future {q₀ : EventQueue} (hhead : q₀.head = none)
    (hs : ∀ e, (q₀.events e).scheduled = false) {ops flush : List Op}
    (hfuel : calls ops + calls flush < fuel) (hrun : q₀.run fuel ops = .ok q)
    (huntouched : ∀ op ∈ flush, ∀ e ∈ op.events, (q.events e).scheduled = false) :
    ∃ originals q₁, q.descheduleAll fuel fuel = .ok (originals, q₁) ∧
      ∀ q₂, q₁.run fuel flush = .ok q₂ → ∃ q' before after, q.memWriteback fuel flush = .ok q' ∧
        q'.curTick = q.curTick ∧ q.serviced fuel fuel = .ok before ∧
        q'.serviced fuel fuel = .ok after ∧
        (after = before.filter (fun p => !(q.events p.1).managed) ↔
          ∀ e, (q.events e).scheduled = true → (q.events e).managed = false →
            (q.events e).squashed = false) := by
  obtain ⟨a, ha, href, -, hlen⟩ :=
    (run_refines ops fuel (refines_empty hhead hs) (by simp; omega)).of_ok hrun
  have hlive : a.Live := (PriorityQueue.Live.run
    (a := ⟨q₀.events, [], q₀.curTick⟩) ⟨nodup_nil, fun e he => nomatch he⟩ ops).of_ok ha
  have hle : a.queue.length ≤ calls ops := by simpa using hlen
  obtain ⟨q₁, a₁, hq₁, h₁, hnil₁, hout₁, hin₁⟩ :=
    descheduleAll_refines href hlive (by omega : _ ≤ fuel) (by omega : _ < fuel)
  refine ⟨_, q₁, hq₁, fun q₂ hq₂ => ?_⟩
  -- the flush leaves what was on the queue alone
  obtain ⟨a₂, ha₂, h₂, -, hlen₂⟩ :=
    (run_refines flush fuel h₁ (by rw [hnil₁]; simp; omega)).of_ok hq₂
  rw [hnil₁, length_nil, Nat.zero_add] at hlen₂
  have hlive₂ : a₂.Live := (PriorityQueue.Live.run (a := a₁)
    ⟨hnil₁ ▸ nodup_nil, fun e he => by rw [hnil₁] at he; cases he⟩ flush).of_ok ha₂
  have houtside : ∀ e ∈ a.queue, a₂.events e = a₁.events e ∧ e ∉ a₂.queue := by
    intro e he
    refine (PriorityQueue.Outside.run (x := a₁.events e) ⟨rfl, by simp [hnil₁]⟩
      fun op hop hmem => ?_).of_ok ha₂
    have hnot := huntouched op hop e hmem
    rw [href.events, (href.valid.mem_iff e).mp he] at hnot
    cases hnot
  obtain ⟨q₃, a₃, hq₃, h₃, hnil₃, hout₃, -⟩ :=
    descheduleAll_refines h₂ hlive₂ (by omega : _ ≤ fuel) (by omega : _ < fuel)
  -- the events go back
  have hsub : ∀ e ∈ a.queue.filter (fun e => !(a.events e).managed),
      e ∈ a.queue ∧ (a.events e).managed = false := by
    intro e he
    simpa using mem_filter.mp he
  have hback : ∀ e ∈ a.queue.filter (fun e => !(a.events e).managed),
      a₃.events e = { a.events e with squashed := false, scheduled := false } ∧
        (a.events e).Live ∧ (a.events e).onQueue = true := by
    intro e he
    obtain ⟨hmem, hman⟩ := hsub e he
    refine ⟨?_, hlive.live e hmem, href.valid.onQueue e hmem⟩
    rw [hout₃ e (houtside e hmem).2, (houtside e hmem).1, hin₁ e hmem]
    simp [Event.release, hman]
  have hf₃ : (a.queue.filter fun e => !(a.events e).managed).length ≤ fuel :=
    (length_filter_le ..).trans (by omega)
  obtain ⟨q', a', hq', h', hqueue', hct', -, hin'⟩ :=
    restore_refines (h₃.advance (t := q.curTick) (by simp [hnil₃])) hnil₃ hf₃ (hlive.nodup.filter _)
      (href.valid.sorted.filter _)
      (fun e he => href.curTick ▸ href.valid.due e (hsub e he).1) hback
  have hlen' : a'.queue.length ≤ calls ops := by
    rw [hqueue']
    exact (length_filter_le ..).trans hle
  refine ⟨q', _, _, ?_, h'.curTick.trans hct', serviced_refines href (by omega) (by omega),
    serviced_refines h' (by omega) (by omega), ?_⟩
  · simp only [memWriteback, hq₁, hq₂, hq₃, bind, Except.bind]
    exact hq'
  have hafter : (a'.queue.filter fun e => !(a'.events e).squashed) =
      a.queue.filter fun e => !(a.events e).managed := by
    rw [hqueue']
    apply filter_eq_self.mpr
    intro e he
    simp [hin' e he]
  have hticks : ((a.queue.filter fun e => !(a.events e).managed).map fun e =>
      (e, (a'.events e).when)) =
        (a.queue.filter fun e => !(a.events e).managed).map fun e => (e, (a.events e).when) :=
    map_congr_left fun e he => by rw [hin' e he]
  rw [hafter, hticks, filter_map, href.events]
  constructor
  · intro heq e hsched hman
    have hmem : (e, (a.events e).when) ∈ (a.queue.filter fun e => !(a.events e).managed).map
        fun e => (e, (a.events e).when) :=
      mem_map_of_mem (mem_filter.mpr ⟨(href.valid.mem_iff e).mpr hsched, by simp [hman]⟩)
    rw [heq] at hmem
    obtain ⟨e', he', hpair⟩ := mem_map.mp hmem
    obtain ⟨rfl, -⟩ := Prod.mk.inj hpair
    simpa using (mem_filter.mp (mem_filter.mp he').1).2
  · intro hnone
    congr 1
    rw [filter_filter]
    apply filter_congr
    intro e he
    have hsq := hnone e ((href.valid.mem_iff e).mp he)
    cases hman : (a.events e).managed with
    | true => simp [hman]
    | false => simp [hman, hsq hman]

/-- Two events are processed as without the write-back, so neither is squashed. -/
theorem memWriteback_future_two :
    let q₀ : EventQueue := ⟨fun _ => {}, fun _ => none, fun _ => none, none, 0⟩
    ∃ q q', q₀.run 4 [.call (.schedule 0 5), .call (.schedule 1 5)] = .ok q ∧
      q.memWriteback 4 [.call (.schedule 2 0)] = .ok q' ∧ q'.curTick = q.curTick ∧
      q.serviced 4 4 = .ok [(1, 5), (0, 5)] ∧ q'.serviced 4 4 = .ok [(1, 5), (0, 5)] ∧
      ∀ e, (q.events e).scheduled = true → (q.events e).managed = false →
        (q.events e).squashed = false := by
  intro q₀
  have hrun : ((q₀.run 4 [.call (.schedule 0 5), .call (.schedule 1 5)]).toOption.bind fun q =>
      (q.descheduleAll 4 4).toOption.bind fun x =>
        (x.2.run 4 [.call (.schedule 2 0)]).toOption.bind fun _ =>
          (q.memWriteback 4 [.call (.schedule 2 0)]).toOption.map fun q' =>
            (decide ((q.events 2).scheduled = false ∧ (q.events 0).managed = false ∧
              (q.events 1).managed = false), (q.serviced 4 4).toOption,
              (q'.serviced 4 4).toOption)) =
      some (true, some [(1, 5), (0, 5)], some [(1, 5), (0, 5)]) := by
    decide
  obtain ⟨q, hq, hrun⟩ := Option.bind_eq_some_iff.mp hrun
  obtain ⟨x, hx, hrun⟩ := Option.bind_eq_some_iff.mp hrun
  obtain ⟨q₂, hq₂, hrun⟩ := Option.bind_eq_some_iff.mp hrun
  obtain ⟨q', hq', hval⟩ := Option.map_eq_some_iff.mp hrun
  simp only [Prod.mk.injEq, decide_eq_true_eq] at hval
  obtain ⟨⟨hout, hzero, hone⟩, hbefore, hafter⟩ := hval
  have huntouched : ∀ op ∈ [Op.call (.schedule 2 0)], ∀ e ∈ op.events,
      (q.events e).scheduled = false := by
    simpa [Op.events, Call.event] using hout
  obtain ⟨originals, q₁, hq₁, h⟩ :=
    memWriteback_future rfl (fun _ => rfl) (by decide) (eq_ok_of_toOption hq) huntouched
  obtain rfl : x.2 = q₁ := congrArg Prod.snd (Except.ok.inj ((eq_ok_of_toOption hx).symm.trans hq₁))
  obtain ⟨q'', before, after, hwb, hct, hb, ha, hiff⟩ := h q₂ (eq_ok_of_toOption hq₂)
  obtain rfl := Except.ok.inj ((eq_ok_of_toOption hq').symm.trans hwb)
  obtain rfl := Except.ok.inj ((eq_ok_of_toOption hbefore).symm.trans hb)
  obtain rfl := Except.ok.inj ((eq_ok_of_toOption hafter).symm.trans ha)
  exact ⟨q, q', eq_ok_of_toOption hq, hwb, hct, hb, ha, hiff.mp (by simp [hzero, hone])⟩

/-- A squashed event, which is skipped before the write-back and processed after it. -/
theorem memWriteback_unsquashes :
    let q₀ : EventQueue := ⟨fun _ => {}, fun _ => none, fun _ => none, none, 0⟩
    (q₀.run 4 [.call (.schedule 0 5), .call (.squash 0)]).toOption.bind (fun q =>
      (q.memWriteback 4 []).toOption.map fun q' =>
        ((q.serviced 4 4).toOption, (q'.serviced 4 4).toOption)) =
      some (some [], some [(0, 5)]) := by
  decide

end EventQueue

end NocSwap.Sim
