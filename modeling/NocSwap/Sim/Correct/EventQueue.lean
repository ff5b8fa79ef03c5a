import NocSwap.Lib.SameOutcome
import NocSwap.Sim.Correct.Bins

/-!
# The event queue is a priority queue
-/

namespace NocSwap.Sim

open Function List SameOutcome

namespace PriorityQueue

structure Valid (a : PriorityQueue) : Prop where
  sorted : a.queue.Pairwise (Before a.events)
  nodup : a.queue.Nodup
  mem_iff : ∀ e, e ∈ a.queue ↔ (a.events e).scheduled = true
  due : ∀ e ∈ a.queue, a.curTick ≤ (a.events e).when
  onQueue : ∀ e ∈ a.queue, (a.events e).onQueue = true

namespace Valid

variable {a : PriorityQueue} {event : Nat} {x : Event}

theorem out (event : Nat) (h : a.Valid) (hx : x.scheduled = false) :
    Valid { a with events := update a.events event x, queue := a.queue.erase event } := by
  have hne : ∀ e ∈ a.queue.erase event, e ≠ event := fun e he heq =>
    (h.nodup.mem_erase_iff.mp he).1 heq
  have hev : ∀ e ∈ a.queue.erase event, update a.events event x e = a.events e :=
    fun e he => update_of_ne (hne e he) ..
  refine ⟨?_, h.nodup.erase _, fun e => ?_, fun e he => ?_, fun e he => ?_⟩
  · refine (h.sorted.erase event).imp_of_mem fun {e e'} he he' hle => ?_
    show (update a.events event x e).le (update a.events event x e')
    rwa [hev e he, hev e' he']
  · show e ∈ a.queue.erase event ↔ (update a.events event x e).scheduled = true
    rw [h.nodup.mem_erase_iff]
    by_cases heq : e = event
    · subst heq
      simp [hx]
    · simp [heq, h.mem_iff]
  · show a.curTick ≤ (update a.events event x e).when
    rw [hev e he]
    exact h.due e (mem_of_mem_erase he)
  · show (update a.events event x e).onQueue = true
    rw [hev e he]
    exact h.onQueue e (mem_of_mem_erase he)

theorem into (h : a.Valid) (hout : event ∉ a.queue) (hs : x.scheduled = true)
    (hon : x.onQueue = true) (hw : a.curTick ≤ x.when) :
    ((a.modify event fun _ => x).insert event).Valid := by
  have hev : ∀ e ∈ a.queue, update a.events event x e = a.events e := fun e he =>
    update_of_ne (ne_of_mem_of_not_mem he hout) ..
  have hmem : ∀ e, e ∈ ((a.modify event fun _ => x).insert event).queue ↔
      e = event ∨ e ∈ a.queue := fun e => mem_orderedInsert _
  refine ⟨?_, ?_, fun e => ?_, fun e he => ?_, fun e he => ?_⟩
  · refine List.Pairwise.orderedInsert event a.queue
      (h.sorted.imp_of_mem fun {e e'} he he' hle => ?_)
    show (update a.events event x e).le (update a.events event x e')
    rwa [hev e he, hev e' he']
  · exact (perm_orderedInsert ..).nodup_iff.mpr (nodup_cons.mpr ⟨hout, h.nodup⟩)
  · show _ ↔ (update a.events event x e).scheduled = true
    rw [hmem]
    by_cases heq : e = event
    · subst heq
      simp [hs]
    · simp [heq, h.mem_iff]
  · show a.curTick ≤ (update a.events event x e).when
    rcases (hmem e).mp he with rfl | he
    · rwa [update_self]
    · rw [hev e he]
      exact h.due e he
  · show (update a.events event x e).onQueue = true
    rcases (hmem e).mp he with rfl | he
    · rwa [update_self]
    · rw [hev e he]
      exact h.onQueue e he

theorem modify {f : Event → Event} (h : a.Valid)
    (hw : ∀ x, (f x).when = x.when ∧ (f x).priority = x.priority)
    (hs : ∀ x, (f x).scheduled = x.scheduled ∧ (f x).onQueue = x.onQueue) :
    (a.modify event f).Valid := by
  have hev : ∀ e, ((a.modify event f).events e).when = (a.events e).when ∧
      ((a.modify event f).events e).priority = (a.events e).priority ∧
      ((a.modify event f).events e).scheduled = (a.events e).scheduled ∧
      ((a.modify event f).events e).onQueue = (a.events e).onQueue := by
    intro e
    unfold PriorityQueue.modify
    by_cases heq : e = event
    · subst heq
      simp [hw, hs]
    · simp [update_of_ne heq]
  refine ⟨h.sorted.imp fun {e e'} hle => ?_, h.nodup, fun e => ?_, fun e he => ?_, fun e he => ?_⟩
  · unfold Before Event.le at *
    rwa [(hev e).1, (hev e).2.1, (hev e').1, (hev e').2.1]
  · rw [(hev e).2.2.1]
    exact h.mem_iff e
  · rw [(hev e).1]
    exact h.due e he
  · rw [(hev e).2.2.2]
    exact h.onQueue e he

end Valid

end PriorityQueue

namespace PriorityQueue

/-- The failures of the operations on the list: an assertion on the arguments, or `serviceOne` of
an empty list. -/
def IsFailure (f : Fault) : Prop := f ∈ [Fault.past, .scheduled, .uninitialized, .nullPointer]

theorem call_outcome (a : PriorityQueue) (c : EventQueue.Call) :
    Outcome (a.call c) (fun _ => True) IsFailure := by
  cases c <;> simp [call, schedule, deschedule, reschedule, IsFailure]

theorem exec_outcome (a : PriorityQueue) (op : EventQueue.Op) :
    Outcome (a.exec op) (fun _ => True) IsFailure := by
  cases op with
  | call c => exact call_outcome a c
  | serviceOne process =>
    unfold exec serviceOne
    rw [outcome_bind, outcome_orFail]
    refine ⟨fun event _ => ?_, fun _ => by simp [IsFailure]⟩
    unfold serve
    rw [outcome_ite]
    refine ⟨fun _ => trivial, fun _ => ?_⟩
    rw [outcome_bind]
    refine (Outcome.foldlM (I := fun _ => True) process (fun c _ a _ => call_outcome a c) _
      trivial).imp fun a _ => ?_
    rw [outcome_ite]
    exact ⟨fun _ => trivial, fun _ => trivial⟩

theorem run_outcome (a : PriorityQueue) (ops : List EventQueue.Op) :
    Outcome (a.run ops) (fun _ => True) IsFailure :=
  Outcome.foldlM ops (fun op _ a _ => exec_outcome a op) a trivial

end PriorityQueue

namespace Event

variable (x : Event)

@[simp] theorem release_when : x.release.when = x.when := by
  unfold release
  split <;> rfl

@[simp] theorem release_priority : x.release.priority = x.priority := by
  unfold release
  split <;> rfl

@[simp] theorem release_scheduled : x.release.scheduled = x.scheduled := by
  unfold release
  split <;> rfl

@[simp] theorem release_onQueue : x.release.onQueue = x.onQueue := by
  unfold release
  split <;> rfl

end Event

namespace EventQueue

structure Refines (q : EventQueue) (a : PriorityQueue) : Prop where
  events : q.events = a.events
  curTick : q.curTick = a.curTick
  holds : Holds q a.queue
  valid : a.Valid

def After (a : PriorityQueue) (k : Nat) (q' : EventQueue) (a' : PriorityQueue) : Prop :=
  Refines q' a' ∧ a'.curTick = a.curTick ∧ a'.queue.length ≤ a.queue.length + k

variable {q : EventQueue} {a : PriorityQueue} {fuel : Nat}

theorem Refines.modify (h : Refines q a) (event : Nat) {f : Event → Event}
    (hw : ∀ x, (f x).when = x.when ∧ (f x).priority = x.priority)
    (hs : ∀ x, (f x).scheduled = x.scheduled ∧ (f x).onQueue = x.onQueue) :
    Refines (q.modify event f) (a.modify event f) where
  events := by
    unfold EventQueue.modify PriorityQueue.modify
    rw [h.events]
  curTick := h.curTick
  holds := h.holds.modify event fun _ => hw _
  valid := h.valid.modify hw hs

theorem insert_refines (event : Nat) {f g : Event → Event} (hev : q.events = a.events)
    (hct : q.curTick = a.curTick) (hholds : Holds q a.queue) (hout : event ∉ a.queue)
    (hfuel : a.queue.length ≤ fuel) (hg : ∀ x, (g x).when = x.when ∧ (g x).priority = x.priority)
    (hvalid : ((a.modify event fun x => g (f x)).insert event).Valid) :
    ∃ q', (q.modify event f).insert fuel event = .ok q' ∧
      After a 1 (q'.modify event g) ((a.modify event fun x => g (f x)).insert event) := by
  have hholds' := hholds.modify event (f := f) fun hin => absurd hin hout
  obtain ⟨q', hq', hev', hct', hin⟩ := hholds'.insert hout hfuel
  refine ⟨q', hq', ⟨?_, hct'.trans hct, ?_, hvalid⟩, rfl, ?_⟩
  · show update q'.events event (g (q'.events event)) =
      update a.events event (g (f (a.events event)))
    rw [hev']
    simp [EventQueue.modify, hev]
  · -- the keys that `insert` compares are those after the write of the flags
    have hbefore : Before (q.modify event f).events =
        Before (a.modify event fun x => g (f x)).events := by
      have hkey : ∀ e, ((a.modify event fun x => g (f x)).events e).when =
          ((q.modify event f).events e).when ∧
          ((a.modify event fun x => g (f x)).events e).priority =
          ((q.modify event f).events e).priority := by
        intro e
        unfold PriorityQueue.modify EventQueue.modify
        by_cases heq : e = event
        · subst heq
          simp [hg, hev]
        · simp [heq, hev]
      ext e e'
      unfold Before Event.le
      rw [(hkey e).1, (hkey e).2, (hkey e').1, (hkey e').2]
    have := hin.modify event (f := g) fun _ => hg _
    simp only [hbefore] at this
    exact this
  · exact (perm_orderedInsert ..).length_eq.le

section

variable (h : Refines q a) (hf : a.queue.length ≤ fuel)
include h hf

theorem schedule_refines (event when : Nat) :
    SameOutcome (After a 1) (q.schedule fuel event when) (a.schedule event when) := by
  unfold EventQueue.schedule PriorityQueue.schedule
  refine require_bind (by rw [h.curTick]) fun hw => ?_
  refine require_bind (by rw [h.events]) fun hs => ?_
  refine require_bind (by rw [h.events]) fun _ => ?_
  have hout : event ∉ a.queue := by
    rw [h.valid.mem_iff, ← h.events, hs]
    exact Bool.false_ne_true
  rw [h.curTick] at hw
  obtain ⟨q', hq', hafter⟩ := insert_refines event
    (f := fun e => { e with when := when, onQueue := true })
    (g := fun e => { e with scheduled := true }) h.events h.curTick h.holds hout hf
    (fun _ => ⟨rfl, rfl⟩) (h.valid.into hout rfl rfl hw)
  rw [hq']
  exact hafter

theorem deschedule_refines (event : Nat) :
    SameOutcome (After a 1) (q.deschedule fuel event) (a.deschedule event) := by
  unfold EventQueue.deschedule PriorityQueue.deschedule
  refine require_bind (by rw [h.events]) fun hs => ?_
  refine require_bind (by rw [h.events]) fun _ => ?_
  have hmem : event ∈ a.queue := by
    rw [h.valid.mem_iff, ← h.events, hs]
  have hon : (q.events event).onQueue = true := by
    rw [h.events]
    exact h.valid.onQueue event hmem
  obtain ⟨q', hq', hev, hct, hholds⟩ := h.holds.remove hmem hon hf
  rw [hq']
  refine ⟨⟨?_, hct.trans h.curTick, ?_, ?_⟩, rfl, ?_⟩
  · simp [EventQueue.modify, PriorityQueue.modify, PriorityQueue.remove, hev, h.events]
  · refine (hholds.modify event fun hin => ?_).modify event fun hin => ?_
    · exact absurd hin h.valid.nodup.not_mem_erase
    · exact absurd hin h.valid.nodup.not_mem_erase
  · exact h.valid.out event (by simp)
  · exact (erase_sublist ..).length_le.trans (Nat.le_add_right ..)

theorem reschedule_refines (event when : Nat) (always : Bool) :
    SameOutcome (After a 1) (q.reschedule fuel event when always)
      (a.reschedule event when always) := by
  unfold EventQueue.reschedule PriorityQueue.reschedule
  refine require_bind (by rw [h.curTick]) fun hw => ?_
  refine require_bind (by rw [h.events]) fun _ => ?_
  refine require_bind (by rw [h.events]) fun _ => ?_
  rw [h.curTick] at hw
  -- with or without `remove`, the event is out of the list
  obtain ⟨q₁, hq₁, hev, hct, hholds⟩ : ∃ q₁,
      (if (q.events event).scheduled = true then q.remove fuel event else pure q) = .ok q₁ ∧
      q₁.events = q.events ∧ q₁.curTick = q.curTick ∧ Holds q₁ (a.remove event).queue := by
    split_ifs with hs
    · have hmem : event ∈ a.queue := by
        rw [h.valid.mem_iff, ← h.events, hs]
      have hon : (q.events event).onQueue = true := by
        rw [h.events]
        exact h.valid.onQueue event hmem
      exact h.holds.remove hmem hon hf
    · have hout : event ∉ a.queue := by
        rwa [h.valid.mem_iff, ← h.events]
      refine ⟨q, rfl, rfl, rfl, ?_⟩
      rw [PriorityQueue.remove, erase_of_not_mem hout]
      exact h.holds
  have hle : (a.remove event).queue.length ≤ a.queue.length :=
    (erase_sublist ..).length_le
  have hvalid : (((a.remove event).modify event fun e =>
      { e with when := when, onQueue := true, squashed := false, scheduled := true }).insert
        event).Valid := by
    have := (h.valid.out event (x := {}) rfl).into
      (x := { a.events event with when, onQueue := true, squashed := false, scheduled := true })
      h.valid.nodup.not_mem_erase rfl rfl hw
    simpa [PriorityQueue.modify, PriorityQueue.remove] using this
  obtain ⟨q', hq', hafter⟩ := insert_refines event (a := a.remove event)
    (f := fun e => { e with when := when, onQueue := true })
    (g := fun e => { e with squashed := false, scheduled := true }) (hev.trans h.events)
    (hct.trans h.curTick) hholds h.valid.nodup.not_mem_erase (hle.trans hf)
    (fun _ => ⟨rfl, rfl⟩) hvalid
  rw [hq₁]
  show SameOutcome _ ((q₁.modify event _).insert fuel event >>= _) _
  rw [hq']
  exact ⟨hafter.1, hafter.2.1, hafter.2.2.trans (Nat.add_le_add_right hle 1)⟩

theorem call_refines (c : Call) : SameOutcome (After a 1) (q.call fuel c) (a.call c) := by
  cases c with
  | schedule event when => exact schedule_refines h hf event when
  | deschedule event => exact deschedule_refines h hf event
  | reschedule event when always => exact reschedule_refines h hf event when always
  | squash event =>
    exact ⟨h.modify event (fun _ => ⟨rfl, rfl⟩) fun _ => ⟨rfl, rfl⟩, rfl, Nat.le_add_right ..⟩

end

theorem calls_refine (cs : List Call) (h : Refines q a) (hf : a.queue.length + cs.length ≤ fuel) :
    SameOutcome (After a cs.length) (cs.foldlM (call fuel) q) (cs.foldlM PriorityQueue.call a) := by
  induction cs generalizing q a with
  | nil => exact ⟨h, rfl, Nat.le_refl _⟩
  | cons c cs ih =>
    rw [length_cons] at hf
    rw [foldlM_cons, foldlM_cons]
    refine (call_refines h (by omega) c).bind fun q₁ a₁ h₁ => ?_
    refine (ih h₁.1 (by have := h₁.2.2; omega)).mono fun q₂ a₂ h₂ => ⟨h₂.1, ?_, ?_⟩
    · exact h₂.2.1.trans h₁.2.1
    · have := h₁.2.2
      have := h₂.2.2
      rw [length_cons]
      omega

def Op.calls : Op → Nat
  | .call _ => 1
  | .serviceOne process => process.length

def calls : List Op → Nat
  | [] => 0
  | op :: ops => op.calls + calls ops

def Later (a : PriorityQueue) (k : Nat) (q' : EventQueue) (a' : PriorityQueue) : Prop :=
  Refines q' a' ∧ a.curTick ≤ a'.curTick ∧ a'.queue.length ≤ a.queue.length + k

theorem Refines.pop {event : Nat} {l : List Nat} (h : Refines q a) (hq : a.queue = event :: l) :
    Refines ((q.modify event fun e => { e with scheduled := false }).popHead event)
      { a.modify event fun e => { e with scheduled := false } with queue := l } := by
  have hholds := h.holds
  rw [hq] at hholds
  obtain ⟨hpop, hev, hct⟩ := (hholds.modify event
    (f := fun e => { e with scheduled := false }) fun _ => ⟨rfl, rfl⟩).popHead
  refine ⟨?_, hct.trans h.curTick, hpop, ?_⟩
  · rw [hev]
    unfold EventQueue.modify PriorityQueue.modify
    rw [h.events]
  · have hout := h.valid.out event (x := { a.events event with scheduled := false }) rfl
    rw [hq, erase_cons_head] at hout
    exact hout

theorem Refines.advance (h : Refines q a) {t : Nat} (ht : ∀ e ∈ a.queue, t ≤ (a.events e).when) :
    Refines { q with curTick := t } { a with curTick := t } where
  events := h.events
  curTick := rfl
  holds := by
    obtain ⟨bins, hbins, hl⟩ := h.holds
    exact ⟨bins, hbins.congr (fun _ _ => ⟨rfl, rfl⟩) (fun _ _ => rfl) fun _ _ => rfl, hl⟩
  valid := ⟨h.valid.sorted, h.valid.nodup, h.valid.mem_iff, ht, h.valid.onQueue⟩

theorem serviceOne_refines (h : Refines q a) (process : List Call)
    (hf : a.queue.length + process.length ≤ fuel) :
    SameOutcome (Later a process.length) (q.serviceOne fuel process) (a.serviceOne process) := by
  unfold EventQueue.serviceOne PriorityQueue.serviceOne
  rw [h.holds.head_eq]
  cases hq : a.queue with
  | nil => exact rfl
  | cons event l =>
    have hpop := h.pop hq
    have htail : a.pop event =
        { a.modify event fun e => { e with scheduled := false } with queue := l } := by
      unfold PriorityQueue.pop
      rw [hq]
      rfl
    show SameOutcome _ _ (PriorityQueue.serve process event (a.pop event))
    rw [htail]
    unfold PriorityQueue.serve
    rw [hq, length_cons] at hf
    have hdue : a.curTick ≤ (a.events event).when := by
      apply h.valid.due
      rw [hq]
      exact mem_cons_self ..
    refine ite (by rw [hpop.events]) (fun _ => ?_) fun _ => ?_
    · -- a squashed event is only released
      have hmod := (hpop.modify event (f := fun e => { e with squashed := false })
        (fun _ => ⟨rfl, rfl⟩) fun _ => ⟨rfl, rfl⟩).modify event (f := Event.release)
        (fun _ => by simp) fun _ => by simp
      refine ⟨?_, Nat.le_refl _, ?_⟩
      · simpa [PriorityQueue.modify] using hmod
      · rw [hq, length_cons]
        show l.length ≤ _
        omega
    · have hadv := hpop.advance (t := (a.events event).when) (by
        intro e he
        have hsorted := h.valid.sorted
        have hnodup := h.valid.nodup
        rw [hq] at hsorted hnodup
        have hne : e ≠ event := ne_of_mem_of_not_mem he (nodup_cons.mp hnodup).1
        have hle := (pairwise_cons.mp hsorted).1 e he
        show _ ≤ (update a.events event _ e).when
        rw [update_of_ne hne]
        unfold Before Event.le at hle
        omega)
      have htime : (((q.modify event fun e => { e with scheduled := false }).popHead event).events
          event).when = (a.events event).when := by
        rw [hpop.events]
        simp [PriorityQueue.modify]
      rw [htime]
      have htime' : ((a.modify event fun e => { e with scheduled := false }).events event).when =
          (a.events event).when := by
        simp [PriorityQueue.modify]
      rw [htime']
      refine (calls_refine process hadv (by show l.length + _ ≤ _; omega)).bind
        fun q₁ a₁ h₁ => ?_
      have hlen : a₁.queue.length ≤ a.queue.length + process.length := by
        have : a₁.queue.length ≤ l.length + process.length := h₁.2.2
        rw [hq, length_cons]
        omega
      have hct : a.curTick ≤ a₁.curTick := hdue.trans h₁.2.1.ge
      refine ite (by rw [h₁.1.events]) (fun _ => ?_) fun _ => ?_
      · exact ⟨h₁.1, hct, hlen⟩
      · exact ⟨h₁.1.modify event (fun _ => by simp) fun _ => by simp, hct, hlen⟩

theorem exec_refines (h : Refines q a) (op : Op) (hf : a.queue.length + op.calls ≤ fuel) :
    SameOutcome (Later a op.calls) (q.exec fuel op) (a.exec op) := by
  cases op with
  | call c =>
    have hf' : a.queue.length ≤ fuel := (Nat.le_add_right ..).trans hf
    exact (call_refines h hf' c).mono fun _ _ h' => ⟨h'.1, h'.2.1.ge, h'.2.2⟩
  | serviceOne process => exact serviceOne_refines h process hf

theorem run_refines (ops : List Op) (fuel : Nat) (h : Refines q a) (hf : a.queue.length + calls ops ≤ fuel) :
    SameOutcome (Later a (calls ops)) (q.run fuel ops) (a.run ops) := by
  unfold EventQueue.run PriorityQueue.run
  induction ops generalizing q a with
  | nil => exact ⟨h, Nat.le_refl _, Nat.le_refl _⟩
  | cons op ops ih =>
    rw [calls] at hf ⊢
    rw [foldlM_cons, foldlM_cons]
    refine (exec_refines h op (by omega)).bind fun q₁ a₁ h₁ => ?_
    have hlen := h₁.2.2
    refine (ih h₁.1 (by omega)).mono fun q₂ a₂ h₂ => ⟨h₂.1, h₁.2.1.trans h₂.2.1, ?_⟩
    have hlen' := h₂.2.2
    omega

theorem calls_append (ops ops' : List Op) : calls (ops ++ ops') = calls ops + calls ops' := by
  induction ops with
  | nil => exact (Nat.zero_add _).symm
  | cons op ops ih => rw [cons_append, calls, calls, ih, Nat.add_assoc]

theorem refines_empty (hhead : q.head = none) (hs : ∀ e, (q.events e).scheduled = false) :
    Refines q { events := q.events, queue := [], curTick := q.curTick } where
  events := rfl
  curTick := rfl
  holds := ⟨[], ⟨hhead, by simp, by simp, List.Pairwise.nil, nodup_nil⟩, rfl⟩
  valid := ⟨List.Pairwise.nil, nodup_nil, by simp [hs], by simp, by simp⟩

/-- A run has the outcome of the run on the list of scheduled events, sorted by time and priority,
the one inserted last first among equals. -/
theorem run_eq_priorityQueue (q₀ : EventQueue) (hhead : q₀.head = none)
    (hs : ∀ e, (q₀.events e).scheduled = false) (ops : List Op) (fuel : Nat)
    (hfuel : calls ops ≤ fuel) :
    SameOutcome
      (fun q a => q.Holds a.queue ∧ q.events = a.events ∧ q.curTick = a.curTick ∧
        a.queue.Pairwise (Before a.events) ∧ a.queue.Nodup ∧
        ∀ e, e ∈ a.queue ↔ (q.events e).scheduled = true)
      (q₀.run fuel ops)
      (PriorityQueue.run ops { events := q₀.events, queue := [], curTick := q₀.curTick }) ∧
    (∀ f, q₀.run fuel ops = .error f → f ≠ .notFound ∧ f ≠ .otherQueue ∧ f ≠ .outOfFuel) ∧
    ∀ ops₁ ops₂ q₁ q₂, ops = ops₁ ++ ops₂ → q₀.run fuel ops₁ = .ok q₁ →
      q₁.run fuel ops₂ = .ok q₂ → q₀.curTick ≤ q₁.curTick ∧ q₁.curTick ≤ q₂.curTick := by
  have hempty := refines_empty hhead hs
  have hrun := run_refines ops fuel hempty (by simpa using hfuel)
  refine ⟨?_, fun f hf => ?_, fun ops₁ ops₂ q₁ q₂ hops h₁ h₂ => ?_⟩
  · refine hrun.mono fun q a h => ⟨h.1.holds, h.1.events, h.1.curTick, h.1.valid.sorted,
      h.1.valid.nodup, fun e => ?_⟩
    rw [h.1.events]
    exact h.1.valid.mem_iff e
  · have hfail := (PriorityQueue.run_outcome _ ops).of_error (hrun.of_error hf)
    unfold PriorityQueue.IsFailure at hfail
    refine ⟨?_, ?_, ?_⟩
    all_goals
      rintro rfl
      exact absurd hfail (by decide)
  · subst hops
    rw [calls_append] at hfuel
    obtain ⟨a₁, _, href₁, hct₁, hlen₁⟩ :=
      (run_refines ops₁ fuel hempty (by simp; omega)).of_ok h₁
    obtain ⟨a₂, _, href₂, hct₂, _⟩ :=
      (run_refines ops₂ fuel href₁ (by simp at hlen₁; omega)).of_ok h₂
    rw [href₁.curTick, href₂.curTick]
    exact ⟨hct₁, hct₂⟩

/-- Three events in two bins, one taken out of the middle, and one that schedules itself again. -/
theorem run_eq_priorityQueue_six :
    let q₀ : EventQueue := ⟨fun _ => {}, fun _ => some 9, fun _ => some 9, none, 0⟩
    let ops : List Op := [.call (.schedule 0 5), .call (.schedule 1 5), .call (.schedule 2 5),
      .call (.schedule 3 2), .call (.deschedule 1), .serviceOne [.schedule 3 5], .serviceOne []]
    (q₀.run 6 ops).toOption.map (fun q => (q.head, q.curTick)) = some (some 2, 5) ∧
      ∀ f, q₀.run 6 ops = .error f → f ≠ .notFound ∧ f ≠ .otherQueue ∧ f ≠ .outOfFuel :=
  ⟨by decide, (run_eq_priorityQueue _ rfl (fun _ => rfl) _ 6 (by decide)).2.1⟩

end EventQueue

end NocSwap.Sim
