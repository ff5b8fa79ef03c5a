import NocSwap.Ruby.MessageBuffer

/-!
# Message buffers: what operations keep, slots and faults
-/

namespace NocSwap.MessageBuffer

open List

def faults : List Fault :=
  [.delayedTicks, .enqueueDelta, .arrivalTime, .fifoOrder, .enqueuedEarly, .dequeueNotReady,
    .emptyBuffer, .noStalledMessage, .stallMapSize]

structure Keeps (b : MessageBuffer) (t : Nat) (b' : MessageBuffer) : Prop where
  callback : b'.dequeueCallback = b.dequeueCallback
  pop : b.timeLastTimePop ≤ t → b'.timeLastTimePop ≤ t

def occupied (b : MessageBuffer) : Int := b.prioHeap.length + b.stallMapSize

structure Rearranges (b : MessageBuffer) (t : Nat) (b' : MessageBuffer) : Prop
    extends Keeps b t b' where
  maxSize : b'.maxSize = b.maxSize
  occupied : b'.occupied = b.occupied

variable (b : MessageBuffer)

theorem Keeps.rfl' {b : MessageBuffer} {t : Nat} : b.Keeps t b := ⟨rfl, id⟩

theorem length_push (m : Message) (h : List Message) : (push m h).length = h.length + 1 :=
  orderedInsert_length ..

theorem updateDelayedTicks_outcome (m : Message) (t : Nat) : Outcome (m.updateDelayedTicks t)
      (fun m' => m' = { m with delayedTicks := m.delayedTicks + (t - m.lastEnqueueTime) })
      (· ∈ faults) := by
  simp only [Message.updateDelayedTicks, outcome_do]
  exact fun _ => by decide

theorem enqueue_outcome (flags : RubyFlags) (m : Message) (t delta rnd : Nat) :
    Outcome (b.enqueue flags m t delta rnd)
      (fun res => b.Keeps t res.1 ∧ res.1.maxSize = b.maxSize ∧ res.1.occupied = b.occupied + 1)
      (· ∈ faults) := by
  simp only [enqueue, outcome_do]
  refine ⟨fun _ => ⟨fun _ => ⟨fun _ => ⟨fun _ => ?_, ?_⟩, ?_⟩, ?_⟩, ?_⟩
  all_goals try exact fun _ => by decide
  refine (updateDelayedTicks_outcome m t).imp fun _ _ => ⟨⟨rfl, id⟩, ?_⟩
  simp only [occupied, length_push]
  push_cast
  omega

theorem dequeue_outcome (t : Nat) (decrement : Bool) : Outcome (b.dequeue t decrement)
      (fun res => b.Keeps t res.1 ∧ res.1.maxSize = b.maxSize ∧ res.1.occupied = b.occupied - 1)
      (· ∈ faults) := by
  simp only [dequeue, outcome_do]
  refine ⟨fun _ => ?_, fun _ => by decide⟩
  cases hheap : b.prioHeap with
  | nil => exact (by decide : Fault.emptyBuffer ∈ faults)
  | cons m rest =>
    rw [outcome_bind]
    refine (updateDelayedTicks_outcome m t).imp
      fun _ _ => ⟨⟨rfl, fun hb => ?_⟩, rfl, ?_⟩
    · show (if b.timeLastTimePop < t then t else b.timeLastTimePop) ≤ t
      split_ifs
      · exact le_refl t
      · exact hb
    · simp only [occupied, hheap, length_cons]
      push_cast
      omega

theorem delayHead_rearranges (flags : RubyFlags) (t delta rnd : Nat) :
    Outcome (b.delayHead flags t delta rnd) (fun res => b.Rearranges t res.1) (· ∈ faults) := by
  unfold delayHead
  cases hheap : b.prioHeap with
  | nil => exact (by decide : Fault.emptyBuffer ∈ faults)
  | cons m rest =>
    refine (enqueue_outcome { b with prioHeap := rest } flags m t delta rnd).imp
      fun _ h => ⟨⟨h.1.callback, h.1.pop⟩, h.2.1, h.2.2.trans ?_⟩
    simp only [occupied, hheap, length_cons]
    push_cast
    omega

theorem recycle_rearranges (t latency : Nat) :
    Outcome (b.recycle t latency) (fun res => b.Rearranges t res.1) (· ∈ faults) := by
  simp only [recycle, outcome_do]
  refine ⟨fun _ => ?_, fun _ => by decide⟩
  cases hheap : b.prioHeap with
  | nil => exact (by decide : Fault.emptyBuffer ∈ faults)
  | cons m rest =>
    refine ⟨⟨rfl, id⟩, rfl, ?_⟩
    simp [occupied, hheap, length_push]

theorem stallMessage_rearranges (addr t : Nat) :
    Outcome (b.stallMessage addr t) (b.Rearranges t) (· ∈ faults) := by
  simp only [stallMessage, outcome_do]
  refine (b.dequeue_outcome t false).imp
    fun res h => ⟨⟨h.1.callback, h.1.pop⟩, h.2.1, ?_⟩
  have hsize := h.2.2
  simp only [occupied] at hsize ⊢
  omega

theorem reanalyzeList_outcome (l : List Message) (t : Nat) :
    b.Keeps t (b.reanalyzeList l t) ∧ (b.reanalyzeList l t).maxSize = b.maxSize ∧
      (b.reanalyzeList l t).occupied = b.occupied + l.length := by
  induction l generalizing b with
  | nil => exact ⟨.rfl', rfl, by simp [reanalyzeList]⟩
  | cons m l ih =>
    obtain ⟨hkeep, hmax, hsize⟩ := ih { b with
      prioHeap := push { m with lastEnqueueTime := t, msgCounter := b.msgCounter + 1 } b.prioHeap
      msgCounter := b.msgCounter + 1 }
    refine ⟨⟨hkeep.callback, hkeep.pop⟩, hmax, hsize.trans ?_⟩
    simp only [occupied, length_push, length_cons]
    push_cast
    omega

theorem reanalyzeList_rearranges (l : List Message) (t : Nat) :
    b.Rearranges t (reanalyzeList { b with stallMapSize := b.stallMapSize - l.length } l t) := by
  obtain ⟨hkeep, hmax, hsize⟩ :=
    reanalyzeList_outcome { b with stallMapSize := b.stallMapSize - l.length } l t
  refine ⟨⟨hkeep.callback, hkeep.pop⟩, hmax, hsize.trans ?_⟩
  simp only [occupied]
  omega

theorem reanalyzeMessages_rearranges (addr t : Nat) :
    Outcome (b.reanalyzeMessages addr t) (b.Rearranges t) (· ∈ faults) := by
  simp only [reanalyzeMessages, outcome_do]
  refine ⟨fun l _ => ⟨fun _ => ?_, fun _ => by decide⟩, fun _ => by decide⟩
  have hlist := b.reanalyzeList_rearranges l t
  exact ⟨⟨hlist.callback, hlist.pop⟩, hlist.maxSize, hlist.occupied⟩

theorem reanalyzeAllMessages_rearranges (t : Nat) :
    Outcome (b.reanalyzeAllMessages t) (b.Rearranges t) (· ∈ faults) := by
  simp only [reanalyzeAllMessages, outcome_do]
  refine (Outcome.foldlM (I := b.Rearranges t) _ (fun e _ b' hb' => ?_) b ⟨.rfl', rfl, rfl⟩).imp
    fun _ h => ⟨⟨h.callback, h.pop⟩, h.maxSize, h.occupied⟩
  simp only [outcome_do]
  refine ⟨fun _ => ?_, fun _ => by decide⟩
  have hlist := b'.reanalyzeList_rearranges e.2 t
  exact ⟨⟨hlist.callback.trans hb'.callback, fun h => hlist.pop (hb'.pop h)⟩,
    hlist.maxSize.trans hb'.maxSize, hlist.occupied.trans hb'.occupied⟩

theorem areNSlotsAvailable_eq {k t : Nat} (h : b.timeLastTimePop < t) :
    b.areNSlotsAvailable k t = decide (b.maxSize = 0 ∨ b.occupied + k ≤ b.maxSize) := by
  unfold areNSlotsAvailable visibleSize occupied
  rw [if_pos h]
  by_cases h0 : b.maxSize = 0
  · simp [h0]
  · simp [h0]

theorem areNSlotsAvailable_of_succ {k t : Nat} (h : b.areNSlotsAvailable (k + 1) t = true) :
    b.areNSlotsAvailable k t = true := by
  unfold areNSlotsAvailable at h ⊢
  by_cases h0 : b.maxSize = 0
  · simp [h0]
  · simp only [h0, if_false, decide_eq_true_eq] at h ⊢
    push_cast at h
    omega

theorem enqueue_slots (flags : RubyFlags) (m : Message) {t : Nat} (delta rnd : Nat)
    (h : b.timeLastTimePop ≤ t) :
    Outcome (b.enqueue flags m t delta rnd)
      (fun res => ∀ k, res.1.areNSlotsAvailable k (t + 1) = b.areNSlotsAvailable (k + 1) (t + 1))
      (· ∈ faults) := by
  refine (b.enqueue_outcome flags m t delta rnd).imp fun res hres k => ?_
  obtain ⟨hkeep, hmax, hsize⟩ := hres
  rw [areNSlotsAvailable_eq _ (Nat.lt_succ_of_le (hkeep.pop h)),
    areNSlotsAvailable_eq _ (Nat.lt_succ_of_le h), hmax, hsize, decide_eq_decide]
  push_cast
  omega

theorem Rearranges.slots {b b' : MessageBuffer} {t : Nat} (h : b.Rearranges t b')
    (hpop : b.timeLastTimePop ≤ t) (k : Nat) :
    b'.areNSlotsAvailable k (t + 1) = b.areNSlotsAvailable k (t + 1) := by
  rw [areNSlotsAvailable_eq _ (Nat.lt_succ_of_le (h.pop hpop)),
    areNSlotsAvailable_eq _ (Nat.lt_succ_of_le hpop), h.maxSize, h.occupied]

def Accepts (flags : RubyFlags) (b : MessageBuffer) (t delta : Nat) : Prop :=
  0 < delta ∧ (b.strictFifo = true → flags.randomization = false → b.randomization = false →
    b.lastArrivalTime ≤ t + delta)

theorem randomTime_pos (rnd : Nat) : 0 < randomTime rnd := by
  unfold randomTime
  omega

theorem lt_arrivalTime (randomization : Bool) {t delta : Nat} (rnd : Nat) (hdelta : 0 < delta) :
    t < (b.arrivalTime randomization t delta rnd).1 := by
  have hrandom := randomTime_pos rnd
  unfold arrivalTime
  split_ifs with h₁ h₂
  all_goals
    dsimp only
    omega

theorem Accepts.arrivalTime {b : MessageBuffer} {flags : RubyFlags} {t delta : Nat}
    (h : b.Accepts flags t delta) (rnd : Nat) (hs : b.strictFifo = true) :
    (b.arrivalTime flags.randomization t delta rnd).2 ≤
      (b.arrivalTime flags.randomization t delta rnd).1 := by
  unfold MessageBuffer.arrivalTime
  split_ifs with h₁
  · rw [Bool.and_eq_true, Bool.not_eq_true', Bool.not_eq_true'] at h₁
    exact h.2 hs h₁.1 h₁.2
  · exact Nat.le_add_right ..
  · exact Nat.le_add_right ..

theorem enqueue_accepts (flags : RubyFlags) (m : Message) (t delta rnd : Nat) :
    Outcome (b.enqueue flags m t delta rnd)
      (fun res => b.Accepts flags t delta → res.1.Accepts flags t delta)
      (fun _ => m.lastEnqueueTime ≤ t → ¬ b.Accepts flags t delta) := by
  simp only [enqueue, outcome_do]
  -- the checks in the order in which `enqueue` makes them
  refine ⟨fun hdelta => ⟨fun _ => ⟨fun _ => ⟨fun hm => ?_, ?_⟩, ?_⟩, ?_⟩, ?_⟩
  · simp only [Message.updateDelayedTicks, outcome_do]
    refine ⟨fun _ h => ⟨hdelta, fun hs hr hb => ?_⟩, fun h => absurd hm h⟩
    have hlast := h.2 hs hr hb
    show (if flags.warmupEnabled then (b.arrivalTime flags.randomization t delta rnd).2
      else (b.arrivalTime flags.randomization t delta rnd).1) ≤ t + delta
    have hplain : b.arrivalTime flags.randomization t delta rnd =
        (t + delta, b.lastArrivalTime) := by
      have hb : b.randomization = false := hb
      simp [arrivalTime, hr, hb]
    rw [hplain]
    split_ifs
    · exact hlast
    · exact le_refl _
  · exact fun h hm _ => h hm
  · intro h _ haccepts
    obtain ⟨hs, hlt⟩ := not_not.mp h
    exact absurd hlt (haccepts.arrivalTime rnd hs).not_gt
  · exact fun h _ _ => h (b.lt_arrivalTime flags.randomization rnd hdelta)
  · exact fun h _ haccepts => h haccepts.1

end NocSwap.MessageBuffer
