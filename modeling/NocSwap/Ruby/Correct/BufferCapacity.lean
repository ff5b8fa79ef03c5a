import NocSwap.Ruby.Correct.BufferRun

/-!
# Runs of a finite message buffer: capacity
-/

namespace NocSwap.MessageBuffer

open List BufferOp

variable {b b' : MessageBuffer}

def SlotChecked (b : MessageBuffer) : BufferOp → Bool
  | .enqueue _ _ t _ _ => b.areNSlotsAvailable 1 t
  | _ => true

/-- A reanalysis puts back at most as many messages as the visible size exceeds the heap by. -/
def WithinHidden (b : MessageBuffer) (op : BufferOp) : Prop :=
  b.timeLastTimePop < op.time ∨
    b.prioHeap.length + (op.restored b).length ≤ b.visibleSize op.time

instance (b : MessageBuffer) (op : BufferOp) : Decidable (WithinHidden b op) :=
  inferInstanceAs (Decidable (_ ∨ _))

structure Visible (b : MessageBuffer) (t : Nat) : Prop where
  pop : b.timeLastTimePop ≤ t
  enqueue : b.timeLastTimeEnqueue ≤ t
  size : b.prioHeap.length ≤ b.visibleSize t

variable {t : Nat}

theorem visibleSize_of_pop_lt (h : b.timeLastTimePop < t) : b.visibleSize t = b.prioHeap.length :=
  if_pos h

theorem visibleSize_of_pop_ge (h : ¬ b.timeLastTimePop < t) :
    b.visibleSize t = if b.timeLastTimeEnqueue < t then b.sizeAtCycleStart
      else b.sizeAtCycleStart + b.msgsThisCycle :=
  if_neg h

theorem Visible.later {t' : Nat} (h : b.Visible t) (htt' : t ≤ t') : b.Visible t' := by
  refine ⟨h.pop.trans htt', h.enqueue.trans htt', ?_⟩
  rcases Nat.eq_or_lt_of_le htt' with rfl | hlt
  · exact h.size
  · -- no pop at `t'` yet: the visible size is the size of the heap
    exact (visibleSize_of_pop_lt (h.pop.trans_lt hlt)).ge

theorem length_messages (hb : b.WellFormed) : (b.messages.length : Int) = b.occupied := by
  rw [messages, length_append, occupied, hb.stallMapSize]
  push_cast
  rfl

theorem Visible.afterEnqueue {flags : RubyFlags} {m : Message} {delta rnd a : Nat}
    (h : b.Visible t) : (afterEnqueue flags b m t delta rnd a).Visible t := by
  have hsize := h.size
  have henq := h.enqueue
  refine ⟨h.pop, ?_, ?_⟩
  · show (if b.timeLastTimeEnqueue < t then t else b.timeLastTimeEnqueue) ≤ t
    split_ifs
    · exact le_refl t
    · exact henq
  · simp only [MessageBuffer.afterEnqueue, visibleSize, length_push] at hsize ⊢
    split_ifs at hsize ⊢ <;> omega

theorem Visible.dequeue {decrement : Bool} {m : Message} (h : b.Visible t)
    (hdeq : b.dequeue t decrement = .ok (b', m)) : b'.Visible t := by
  obtain ⟨m₀, rest, hheap, -, -, rfl⟩ := dequeue_ok hdeq
  have hsize := h.size
  have hpop := h.pop
  refine ⟨?_, h.enqueue, ?_⟩
  · show (if b.timeLastTimePop < t then t else b.timeLastTimePop) ≤ t
    split_ifs
    · exact le_refl t
    · exact hpop
  · rw [hheap, length_cons] at hsize
    simp only [visibleSize, hheap, length_cons] at hsize ⊢
    split_ifs at hsize ⊢ <;> omega

theorem Visible.restore {l : List Message} {map : List (Nat × List Message)} (h : b.Visible t)
    (hl : b.timeLastTimePop < t ∨ b.prioHeap.length + l.length ≤ b.visibleSize t) :
    ({ b.restore l t with stallMsgMap := map } : MessageBuffer).Visible t := by
  refine ⟨h.pop, h.enqueue, ?_⟩
  by_cases hpop : b.timeLastTimePop < t
  · -- nothing has been popped at `t`, so nothing is hidden
    exact (@visibleSize_of_pop_lt { b.restore l t with stallMsgMap := map } t hpop).ge
  · have hlen : (b.restore l t).prioHeap.length = b.prioHeap.length + l.length := by
      rw [MessageBuffer.restore, (foldl_push_perm _ _).length_eq, length_append,
        length_rekeyed, Nat.add_comm]
    have hsame : b.visibleSize t =
        ({ b.restore l t with stallMsgMap := map } : MessageBuffer).visibleSize t :=
      (visibleSize_of_pop_ge hpop).trans
        (@visibleSize_of_pop_ge { b.restore l t with stallMsgMap := map } t hpop).symm
    rw [← hsame]
    exact hlen.trans_le (hl.resolve_left hpop)

variable {op : BufferOp} {res : BufferResult}

theorem Visible.exec (h : b.Visible op.time)
    (hop : WithinHidden b op) (hexec : op.exec b = .ok (b', res)) : b'.Visible op.time := by
  cases done_of_exec hexec with
  | enqueue henq =>
    obtain ⟨-, -, rfl⟩ := enqueue_ok henq
    exact h.afterEnqueue
  | dequeue hdeq => exact h.dequeue hdeq
  | @delayHead flags t delta rnd a b' hdelay =>
    obtain ⟨m₀, rest, hheap, henq⟩ := delayHead_ok hdelay
    obtain ⟨-, -, rfl⟩ := enqueue_ok henq
    -- without its first message the heap is still within the visible size
    have hrest : ({ b with prioHeap := rest } : MessageBuffer).Visible t := by
      refine ⟨h.pop, h.enqueue, ?_⟩
      have hsize : b.prioHeap.length ≤ b.visibleSize t := h.size
      simp only [visibleSize, hheap, length_cons] at hsize ⊢
      split_ifs at hsize ⊢ <;> omega
    exact hrest.afterEnqueue
  | @recycle t latency a b' hrec =>
    obtain ⟨m₀, rest, hheap, -, rfl⟩ := recycle_ok hrec
    refine ⟨h.pop, h.enqueue, ?_⟩
    have hsize : b.prioHeap.length ≤ b.visibleSize t := h.size
    simp only [visibleSize, hheap, length_cons, length_push] at hsize ⊢
    exact hsize
  | stallMessage hstall =>
    obtain ⟨b₂, m, hdeq, rfl⟩ := stallMessage_ok hstall
    have hdeq := h.dequeue hdeq
    exact ⟨hdeq.pop, hdeq.enqueue, hdeq.size⟩
  | reanalyzeMessages hre =>
    obtain ⟨l, hl, rfl⟩ := reanalyzeMessages_ok hre
    apply h.restore
    simpa [WithinHidden, restored, time, hl] using hop
  | reanalyzeAllMessages hre =>
    rw [reanalyzeAllMessages_ok hre]
    apply h.restore
    simpa [WithinHidden, restored, time, stalled, length_flatMap] using hop

theorem occupied_exec (hexec : op.exec b = .ok (b', res)) :
    b'.maxSize = b.maxSize ∧ b'.occupied ≤ b.occupied + op.enqueued.length := by
  have hmoved {t : Nat} (h : b.Rearranges t b') :
      b'.maxSize = b.maxSize ∧ b'.occupied ≤ b.occupied + (0 : Nat) :=
    ⟨h.maxSize, by rw [h.occupied]; simp⟩
  cases done_of_exec hexec with
  | @enqueue flags m t delta rnd a b' henq =>
    have h := (b.enqueue_outcome flags m t delta rnd).of_ok henq
    exact ⟨h.2.1, h.2.2.le⟩
  | @dequeue t decrement m b' hdeq =>
    have h := (b.dequeue_outcome t decrement).of_ok hdeq
    refine ⟨h.2.1, h.2.2.le.trans ?_⟩
    show b.occupied - 1 ≤ b.occupied + 0
    omega
  | delayHead hdelay => exact hmoved ((b.delayHead_rearranges _ _ _ _).of_ok hdelay)
  | recycle hrec => exact hmoved ((b.recycle_rearranges _ _).of_ok hrec)
  | stallMessage hstall => exact hmoved ((b.stallMessage_rearranges _ _).of_ok hstall)
  | reanalyzeMessages hre => exact hmoved ((b.reanalyzeMessages_rearranges _ _).of_ok hre)
  | reanalyzeAllMessages hre => exact hmoved ((b.reanalyzeAllMessages_rearranges _).of_ok hre)

theorem Visible.occupied_lt (h : b.Visible t) (hmax : 0 < b.maxSize)
    (hslot : b.areNSlotsAvailable 1 t = true) : b.occupied + 1 ≤ b.maxSize := by
  have hsize := h.size
  rw [areNSlotsAvailable, if_neg hmax.ne', decide_eq_true_eq] at hslot
  rw [occupied]
  push_cast at hslot
  omega

theorem occupied_le_of_run {ops : List BufferOp} {out : List Message}
    (h : Run (fun b op => SlotChecked b op = true ∧ WithinHidden b op) b ops out b')
    (htimes : (t :: ops.map BufferOp.time).Pairwise (· ≤ ·)) (hvisible : b.Visible t)
    (hmax : 0 < b.maxSize) (hle : b.occupied ≤ b.maxSize) :
    b'.maxSize = b.maxSize ∧ b'.occupied ≤ b.maxSize := by
  induction h generalizing t with
  | nil b => exact ⟨rfl, hle⟩
  | @cons b b₁ b' op ops res out hC hexec hrest ih =>
    obtain ⟨hslot, hhidden⟩ := hC
    rw [map_cons, pairwise_cons] at htimes
    have hvisible := hvisible.later (htimes.1 op.time (mem_cons_self ..))
    obtain ⟨hmax₁, hocc₁⟩ := occupied_exec hexec
    have hle₁ : b₁.occupied ≤ b₁.maxSize := by
      refine hocc₁.trans ?_
      rw [hmax₁]
      cases op with
      | enqueue flags m t delta rnd => exact hvisible.occupied_lt hmax hslot
      | _ => simpa [enqueued] using hle
    obtain ⟨hmax', hle'⟩ := ih htimes.2 (hvisible.exec hhidden hexec) (hmax₁ ▸ hmax) hle₁
    exact ⟨hmax'.trans hmax₁, hmax₁ ▸ hle'⟩

/-- **A finite buffer does not overflow** if enqueues follow a successful `areNSlotsAvailable(1, t)`
and reanalyses stay within what the visible size hides. -/
theorem occupied_le_maxSize {bufferSize : Nat} (hsize : 0 < bufferSize)
    {ordered randomization : Bool} {ops : List BufferOp} {out : List Message} {b : MessageBuffer}
    (h : Run (fun b op => SlotChecked b op = true ∧ WithinHidden b op)
      (new bufferSize ordered randomization) ops out b)
    (htimes : (ops.map BufferOp.time).Pairwise (· ≤ ·)) :
    b.prioHeap.length + b.stalled.length ≤ bufferSize := by
  have hnew := wellFormed_new bufferSize ordered randomization
  have hstart : (new bufferSize ordered randomization).Visible 0 :=
    ⟨le_refl 0, le_refl 0, Nat.zero_le _⟩
  obtain ⟨-, hle⟩ := occupied_le_of_run h
    (pairwise_cons.mpr ⟨fun _ _ => Nat.zero_le _, htimes⟩) hstart hsize
    (Int.natCast_nonneg bufferSize)
  rw [← length_messages (conserved hnew h).1, messages, length_append] at hle
  exact Int.ofNat_le.mp hle

/-- Three slots: one message is popped at `t`, two stalled ones are put back at `u`, `n` more
enqueued. -/
def refill (t u n : Nat) : List BufferOp :=
  [.enqueue ⟨false, false⟩ (sample 0) 0 1 0, .enqueue ⟨false, false⟩ (sample 0) 0 1 0,
    .enqueue ⟨false, false⟩ (sample 0) 0 1 0, .stallMessage 0 1, .stallMessage 0 1,
    .dequeue t true, .reanalyzeMessages 0 u] ++
  List.replicate n (.enqueue ⟨false, false⟩ (sample u) u 1 0)

theorem occupied_le_maxSize_refill : ∃ out b,
    Run (fun b op => SlotChecked b op = true ∧ WithinHidden b op) (new 3 false false)
      (refill 2 3 1) out b ∧ b.prioHeap.length + b.stalled.length ≤ 3 := by
  have hrun : Run (fun b op => SlotChecked b op = true ∧ WithinHidden b op) (new 3 false false)
      (refill 2 3 1) _ _ :=
    (run_of_simulate (fun b op => SlotChecked b op && decide (WithinHidden b op)) _ _ rfl).mono
      fun b op h => ⟨(Bool.and_eq_true_iff.mp h).1, of_decide_eq_true (Bool.and_eq_true_iff.mp h).2⟩
  exact ⟨_, _, hrun, occupied_le_maxSize (by decide) hrun (by decide)⟩

/-- **Putting messages back in the cycle of a pop overflows a finite buffer**: it holds four
messages instead of three. -/
theorem reanalyze_overflows : ∃ out b,
    Run (fun b op => SlotChecked b op = true) (new 3 false false) (refill 2 2 2) out b ∧
    ((refill 2 2 2).map BufferOp.time).Pairwise (· ≤ ·) ∧
    b.prioHeap.length + b.stalled.length = 4 :=
  ⟨_, _, run_of_simulate SlotChecked _ _ rfl, by decide, rfl⟩

def drift : BufferOp → Nat
  | .delayHead .. => 1
  | .dequeue _ decrement => if decrement then 0 else 1
  | _ => 0

theorem bufMsgs_exec (hexec : op.exec b = .ok (b', res)) :
    b'.bufMsgs - b'.occupied = b.bufMsgs - b.occupied + drift op := by
  -- an operation that leaves the number of messages and the statistic alone
  have hsame {t : Nat} (h : b.Rearranges t b') (hbuf : b'.bufMsgs = b.bufMsgs) :
      b'.bufMsgs - b'.occupied = b.bufMsgs - b.occupied + (0 : Nat) := by
    rw [h.occupied, hbuf]
    simp
  cases done_of_exec hexec with
  | @enqueue flags m t delta rnd a b' henq =>
    have hocc := ((b.enqueue_outcome flags m t delta rnd).of_ok henq).2.2
    obtain ⟨-, -, rfl⟩ := enqueue_ok henq
    rw [hocc]
    show b.bufMsgs + 1 - (b.occupied + 1) = b.bufMsgs - b.occupied + 0
    omega
  | @dequeue t decrement m b' hdeq =>
    have hocc := ((b.dequeue_outcome t decrement).of_ok hdeq).2.2
    obtain ⟨m₀, rest, -, -, -, rfl⟩ := dequeue_ok hdeq
    rw [hocc]
    cases decrement with
    | true =>
      show b.bufMsgs - 1 - (b.occupied - 1) = b.bufMsgs - b.occupied + 0
      omega
    | false =>
      show b.bufMsgs - (b.occupied - 1) = b.bufMsgs - b.occupied + 1
      omega
  | @delayHead flags t delta rnd a b' hdelay =>
    have hocc := ((b.delayHead_rearranges flags t delta rnd).of_ok hdelay).occupied
    obtain ⟨m₀, rest, -, henq⟩ := delayHead_ok hdelay
    obtain ⟨-, -, rfl⟩ := enqueue_ok henq
    rw [hocc]
    show b.bufMsgs + 1 - b.occupied = b.bufMsgs - b.occupied + 1
    omega
  | @recycle t latency a b' hrec =>
    have hmoved := (b.recycle_rearranges t latency).of_ok hrec
    obtain ⟨m₀, rest, -, -, rfl⟩ := recycle_ok hrec
    exact hsame hmoved rfl
  | @stallMessage addr t b' hstall =>
    have hmoved := (b.stallMessage_rearranges addr t).of_ok hstall
    obtain ⟨b₁, m, hdeq, rfl⟩ := stallMessage_ok hstall
    obtain ⟨m₀, rest, -, -, -, rfl⟩ := dequeue_ok hdeq
    exact hsame hmoved rfl
  | @reanalyzeMessages addr t b' hre =>
    have hmoved := (b.reanalyzeMessages_rearranges addr t).of_ok hre
    obtain ⟨l, -, rfl⟩ := reanalyzeMessages_ok hre
    exact hsame hmoved rfl
  | @reanalyzeAllMessages t b' hre =>
    have hmoved := (b.reanalyzeAllMessages_rearranges t).of_ok hre
    exact hsame hmoved (by rw [reanalyzeAllMessages_ok hre]; rfl)

theorem bufMsgs_run {C : MessageBuffer → BufferOp → Prop} {ops : List BufferOp} {out : List Message}
    (h : Run C b ops out b') :
    b'.bufMsgs - b'.occupied = b.bufMsgs - b.occupied + ((ops.map drift).sum : Nat) := by
  induction h with
  | nil b => simp
  | cons _ hexec _ ih =>
    rw [ih, bufMsgs_exec hexec, map_cons, sum_cons]
    push_cast
    omega

def Counted : BufferOp → Prop
  | .delayHead .. => False
  | .dequeue _ decrement => decrement = true
  | _ => True

theorem drift_eq_zero : drift op = 0 ↔ Counted op := by
  cases op with
  | dequeue t decrement => cases decrement <;> simp [drift, Counted]
  | _ => simp [drift, Counted]

/-- **The statistic of the buffer.** `m_buf_msgs` is the number of messages if and only if the run
has no `delayHead` and no uncounted dequeue. -/
theorem bufMsgs_eq_iff {bufferSize : Nat} {ordered randomization : Bool} {ops : List BufferOp}
    {out : List Message} {b : MessageBuffer}
    (h : Run (fun _ _ => True) (new bufferSize ordered randomization) ops out b) :
    b.bufMsgs = b.prioHeap.length + b.stalled.length ↔ ∀ op ∈ ops, Counted op := by
  have hdrift := bufMsgs_run h
  have hstart : (new bufferSize ordered randomization).bufMsgs -
      (new bufferSize ordered randomization).occupied = 0 := rfl
  have hlen := length_messages (conserved (wellFormed_new bufferSize ordered randomization) h).1
  rw [messages, length_append] at hlen
  push_cast at hlen
  have hsum : b.bufMsgs = b.prioHeap.length + b.stalled.length ↔ (ops.map drift).sum = 0 := by
    omega
  rw [hsum, List.sum_eq_zero_iff_forall_eq_nat]
  simp [drift_eq_zero]

def enqueueThen (op : BufferOp) : List BufferOp := [.enqueue ⟨false, false⟩ (sample 0) 0 1 0, op]

theorem bufMsgs_eq_iff_stalled : ∃ out b,
    Run (fun _ _ => True) (new 0 false false) (enqueueThen (.stallMessage 0 1)) out b ∧
    b.bufMsgs = b.prioHeap.length + b.stalled.length := by
  have hrun : Run (fun _ _ => True) (new 0 false false) (enqueueThen (.stallMessage 0 1)) _ _ :=
    (run_of_simulate (fun _ _ => true) _ _ rfl).mono fun _ _ _ => trivial
  refine ⟨_, _, hrun, (bufMsgs_eq_iff hrun).mpr fun op hop => ?_⟩
  simp only [enqueueThen, mem_cons, not_mem_nil, or_false] at hop
  rcases hop with rfl | rfl
  · trivial
  · trivial

/-- **A delayed message is counted twice.** -/
theorem delayHead_counts_twice : ∃ out b,
    Run (fun _ _ => True) (new 0 false false) (enqueueThen (.delayHead ⟨false, false⟩ 1 1 0)) out b ∧
    b.bufMsgs = 2 ∧ b.prioHeap.length + b.stalled.length = 1 :=
  ⟨_, _, (run_of_simulate (fun _ _ => true) _ _ rfl).mono fun _ _ _ => trivial, rfl, rfl⟩

end NocSwap.MessageBuffer
