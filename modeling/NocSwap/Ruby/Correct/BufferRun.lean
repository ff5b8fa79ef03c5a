import Mathlib.Algebra.Order.Group.Multiset
import Mathlib.Tactic.Abel
import NocSwap.Ruby.BufferRun
import NocSwap.Ruby.Correct.MessageBuffer

/-!
# Runs of a message buffer: conservation and order

Each operation trades messages between the heap, the stalled ones and the output.
-/

namespace NocSwap

open List Nat

namespace Message

def body (m : Message) : Nat × NetDest := (m.time, m.destination)

theorem le_iff {l r : Message} : l.le r = true ↔ l.lastEnqueueTime < r.lastEnqueueTime ∨
    (l.lastEnqueueTime = r.lastEnqueueTime ∧ l.msgCounter ≤ r.msgCounter) := by
  unfold le
  split_ifs with h
  · rw [decide_eq_true_eq]
    omega
  · rw [decide_eq_true_eq]
    omega

instance : Std.Total (fun a b : Message => a.le b = true) :=
  ⟨fun a b => by rw [le_iff, le_iff]; omega⟩

instance : IsTrans Message (fun a b => a.le b = true) :=
  ⟨fun a b c hab hbc => by rw [le_iff] at hab hbc ⊢; omega⟩

end Message

namespace MessageBuffer

variable {b b' : MessageBuffer}

theorem push_perm (m : Message) (h : List Message) : (push m h).Perm (m :: h) :=
  perm_orderedInsert _ m h

def afterEnqueue (flags : RubyFlags) (b : MessageBuffer) (m : Message) (t delta rnd a : Nat) :
    MessageBuffer :=
  { b with
    prioHeap := push { m with
      delayedTicks := m.delayedTicks + (t - m.lastEnqueueTime)
      lastEnqueueTime := a
      msgCounter := b.msgCounter + 1 } b.prioHeap
    timeLastTimeEnqueue := if b.timeLastTimeEnqueue < t then t else b.timeLastTimeEnqueue
    msgsThisCycle := (if b.timeLastTimeEnqueue < t then 0 else b.msgsThisCycle) + 1
    msgCounter := b.msgCounter + 1
    lastArrivalTime := if flags.warmupEnabled then
      (b.arrivalTime flags.randomization t delta rnd).2 else a
    bufMsgs := b.bufMsgs + 1 }

theorem lastArrivalTime_le (b : MessageBuffer) (randomization : Bool) (t delta rnd : Nat) :
    b.lastArrivalTime ≤ (b.arrivalTime randomization t delta rnd).2 := by
  unfold arrivalTime
  split_ifs with h₁ h₂ h₃
  · exact le_refl _
  · exact h₃.le
  · exact le_refl _
  · exact le_refl _

variable {flags : RubyFlags} {m : Message} {t delta rnd a : Nat}

theorem enqueue_ok (h : b.enqueue flags m t delta rnd = .ok (b', a)) :
    t < a ∧ (b.strictFifo = true → b.lastArrivalTime ≤ a) ∧
      b' = afterEnqueue flags b m t delta rnd a := by
  have hout : Outcome (b.enqueue flags m t delta rnd) (fun res =>
      t < res.2 ∧ (b.strictFifo = true → b.lastArrivalTime ≤ res.2) ∧
        res.1 = afterEnqueue flags b m t delta rnd res.2) (fun _ => True) := by
    simp only [enqueue, outcome_do]
    refine fun _ => fun harr => fun hfifo => fun _ => ?_
    refine (updateDelayedTicks_outcome m t).onOk fun m' hm' => ?_
    subst hm'
    have hlast := b.lastArrivalTime_le flags.randomization t delta rnd
    exact ⟨harr, fun hs => hlast.trans (not_lt.mp fun hlt => hfifo ⟨hs, hlt⟩), rfl⟩
  exact hout.of_ok h

variable {rest : List Message}

theorem le_of_isReady (hheap : b.prioHeap = m :: rest) {u : Unit}
    (h : require Fault.dequeueNotReady (b.isReady t = true) = .ok u) : m.lastEnqueueTime ≤ t := by
  unfold require at h
  split_ifs at h with hready
  unfold isReady at hready
  rw [hheap] at hready
  exact of_decide_eq_true hready

theorem dequeue_ok {decrement : Bool} (h : b.dequeue t decrement = .ok (b', m)) :
    ∃ m₀ rest, b.prioHeap = m₀ :: rest ∧ m₀.lastEnqueueTime ≤ t ∧
      m = { m₀ with delayedTicks := m₀.delayedTicks + (t - m₀.lastEnqueueTime) } ∧
      b' = { b with
        prioHeap := rest
        sizeAtCycleStart := if b.timeLastTimePop < t then b.prioHeap.length else b.sizeAtCycleStart
        timeLastTimePop := if b.timeLastTimePop < t then t else b.timeLastTimePop
        bufMsgs := if decrement then b.bufMsgs - 1 else b.bufMsgs } := by
  obtain ⟨_, hready, h⟩ := bind_eq_ok.mp h
  cases hheap : b.prioHeap with
  | nil => rw [hheap] at h; cases h
  | cons m₀ rest =>
    rw [hheap] at h
    obtain ⟨m', hm', h⟩ := bind_eq_ok.mp h
    obtain rfl := (updateDelayedTicks_outcome m₀ t).of_ok hm'
    obtain ⟨rfl, rfl⟩ := Prod.mk.inj (Except.ok.inj h)
    exact ⟨m₀, rest, rfl, le_of_isReady hheap hready, rfl, rfl⟩

theorem exists_of_isReady (h : b.isReady t = true) :
    ∃ m rest, b.prioHeap = m :: rest ∧ m.lastEnqueueTime ≤ t := by
  unfold isReady at h
  cases hheap : b.prioHeap with
  | nil =>
    rw [hheap] at h
    exact absurd h Bool.false_ne_true
  | cons m rest =>
    rw [hheap] at h
    exact ⟨m, rest, rfl, of_decide_eq_true h⟩

theorem dequeue_of_ready {m₀ : Message} (hheap : b.prioHeap = m₀ :: rest)
    (ht : m₀.lastEnqueueTime ≤ t) : ∃ b' m, b.dequeue t true = .ok (b', m) := by
  have hready : b.isReady t = true := by
    unfold isReady
    rw [hheap]
    exact decide_eq_true ht
  unfold dequeue Message.updateDelayedTicks
  rw [hheap]
  simp only [require, hready, ht, if_true]
  exact ⟨_, _, rfl⟩

theorem delayHead_ok (h : b.delayHead flags t delta rnd = .ok (b', a)) :
    ∃ m₀ rest, b.prioHeap = m₀ :: rest ∧
      enqueue flags { b with prioHeap := rest } m₀ t delta rnd = .ok (b', a) := by
  unfold delayHead at h
  cases hheap : b.prioHeap with
  | nil => rw [hheap] at h; cases h
  | cons m₀ rest =>
    rw [hheap] at h
    exact ⟨m₀, rest, rfl, h⟩

theorem recycle_ok {latency : Nat} (h : b.recycle t latency = .ok (b', a)) :
    ∃ m₀ rest, b.prioHeap = m₀ :: rest ∧ m₀.lastEnqueueTime ≤ t ∧
      b' = { b with prioHeap := push { m₀ with lastEnqueueTime := t + latency } rest } := by
  obtain ⟨_, hready, h⟩ := bind_eq_ok.mp h
  cases hheap : b.prioHeap with
  | nil => rw [hheap] at h; cases h
  | cons m₀ rest =>
    rw [hheap] at h
    obtain ⟨rfl, -⟩ := Prod.mk.inj (Except.ok.inj h)
    exact ⟨m₀, rest, rfl, le_of_isReady hheap hready, rfl⟩

variable {addr : Nat}

theorem stallMessage_ok (h : b.stallMessage addr t = .ok b') :
    ∃ b₁ m, b.dequeue t false = .ok (b₁, m) ∧
      b' = { b₁ with
        stallMsgMap := stallInsert addr m b₁.stallMsgMap
        stallMapSize := b₁.stallMapSize + 1 } := by
  obtain ⟨⟨b₁, m⟩, hdeq, h⟩ := bind_eq_ok.mp h
  exact ⟨b₁, m, hdeq, (Except.ok.inj h).symm⟩

/-- The messages as `reanalyzeList` puts them back: at time `t`, with the counters after `c`. -/
def rekeyed (t c : Nat) : List Message → List Message
  | [] => []
  | m :: l => { m with lastEnqueueTime := t, msgCounter := c + 1 } :: rekeyed t (c + 1) l

theorem rekeyed_append (t : Nat) (l l' : List Message) :
    ∀ c, rekeyed t c (l ++ l') = rekeyed t c l ++ rekeyed t (c + l.length) l' := by
  induction l with
  | nil => exact fun c => rfl
  | cons m l ih =>
    intro c
    rw [cons_append, rekeyed, rekeyed, ih, cons_append, length_cons]
    congr 3
    omega

section

variable (t : Nat) (l : List Message)

theorem length_rekeyed : ∀ c, (rekeyed t c l).length = l.length := by
  induction l with
  | nil => exact fun c => rfl
  | cons m l ih => exact fun c => congrArg (· + 1) (ih (c + 1))

theorem rekeyed_body : ∀ c, (rekeyed t c l).map Message.body = l.map Message.body := by
  induction l with
  | nil => exact fun c => rfl
  | cons m l ih => exact fun c => congrArg (m.body :: ·) (ih (c + 1))

theorem rekeyed_counters :
    ∀ c, (rekeyed t c l).map Message.msgCounter = List.range' (c + 1) l.length := by
  induction l with
  | nil => exact fun c => rfl
  | cons m l ih =>
    intro c
    rw [rekeyed, map_cons, ih, length_cons, range'_succ]

end

def restore (b : MessageBuffer) (l : List Message) (t : Nat) : MessageBuffer :=
  { b with
    prioHeap := (rekeyed t b.msgCounter l).foldl (fun h m => push m h) b.prioHeap
    msgCounter := b.msgCounter + l.length
    stallMapSize := b.stallMapSize - l.length }

theorem restore_append (b : MessageBuffer) (l l' : List Message) (t : Nat) :
    b.restore (l ++ l') t = (b.restore l t).restore l' t := by
  unfold restore
  dsimp only
  rw [rekeyed_append, foldl_append, length_append, Nat.add_assoc]
  congr 1
  push_cast
  omega

theorem reanalyzeList_eq (l : List Message) (t : Nat) : ∀ b : MessageBuffer,
    reanalyzeList { b with stallMapSize := b.stallMapSize - l.length } l t = b.restore l t := by
  suffices h : ∀ b : MessageBuffer, reanalyzeList b l t = { b with
      prioHeap := (rekeyed t b.msgCounter l).foldl (fun h m => push m h) b.prioHeap
      msgCounter := b.msgCounter + l.length } from fun b => h _
  induction l with
  | nil => exact fun b => rfl
  | cons m l ih =>
    intro b
    show reanalyzeList _ l t = _
    rw [ih]
    dsimp only
    rw [rekeyed, foldl_cons, length_cons, Nat.add_assoc, Nat.add_comm 1]

theorem reanalyzeMessages_ok (h : b.reanalyzeMessages addr t = .ok b') :
    ∃ l, b.stallMsgMap.lookup addr = some l ∧
      b' = { b.restore l t with stallMsgMap := b.stallMsgMap.filter fun e => e.1 ≠ addr } := by
  obtain ⟨l, hl, h⟩ := bind_eq_ok.mp h
  obtain ⟨_, -, h⟩ := bind_eq_ok.mp h
  refine ⟨l, ?_, ?_⟩
  · cases hlook : b.stallMsgMap.lookup addr with
    | none => rw [hlook] at hl; cases hl
    | some l' =>
      rw [hlook] at hl
      exact congrArg some (Except.ok.inj hl)
  · rw [← Except.ok.inj h, reanalyzeList_eq]
    rfl

theorem reanalyzeAllMessages_ok (h : b.reanalyzeAllMessages t = .ok b') :
    b' = { b.restore b.stalled t with stallMsgMap := [] } := by
  obtain ⟨b₁, hloop, h⟩ := bind_eq_ok.mp h
  rw [← Except.ok.inj h]
  -- the loop over the lists of the map restores them one after the other
  suffices hfold : ∀ (map : List (Nat × List Message)) (b b₁ : MessageBuffer),
      map.foldlM (fun (b : MessageBuffer) e => do
        require Fault.stallMapSize (0 ≤ b.stallMapSize - e.2.length)
        return reanalyzeList { b with stallMapSize := b.stallMapSize - e.2.length } e.2 t) b
        = .ok b₁ → b₁ = b.restore (map.flatMap Prod.snd) t by
    rw [hfold _ _ _ hloop]
    rfl
  intro map
  induction map with
  | nil =>
    intro b b₁ h
    obtain rfl := Except.ok.inj h
    simp [restore, rekeyed]
  | cons e map ih =>
    intro b b₁ h
    rw [foldlM_cons] at h
    obtain ⟨b₂, hb₂, h⟩ := bind_eq_ok.mp h
    obtain ⟨_, -, hb₂⟩ := bind_eq_ok.mp hb₂
    rw [ih _ _ h, flatMap_cons, restore_append, ← Except.ok.inj hb₂, reanalyzeList_eq]

inductive Done (b : MessageBuffer) : BufferOp → BufferResult → MessageBuffer → Prop
  | enqueue {flags : RubyFlags} {m : Message} {t delta rnd a : Nat} {b' : MessageBuffer}
      (h : b.enqueue flags m t delta rnd = .ok (b', a)) :
      Done b (.enqueue flags m t delta rnd) (.enqueued a) b'
  | dequeue {t : Nat} {decrement : Bool} {m : Message} {b' : MessageBuffer}
      (h : b.dequeue t decrement = .ok (b', m)) : Done b (.dequeue t decrement) (.dequeued m) b'
  | delayHead {flags : RubyFlags} {t delta rnd a : Nat} {b' : MessageBuffer}
      (h : b.delayHead flags t delta rnd = .ok (b', a)) :
      Done b (.delayHead flags t delta rnd) (.enqueued a) b'
  | recycle {t latency a : Nat} {b' : MessageBuffer} (h : b.recycle t latency = .ok (b', a)) :
      Done b (.recycle t latency) .moved b'
  | stallMessage {addr t : Nat} {b' : MessageBuffer} (h : b.stallMessage addr t = .ok b') :
      Done b (.stallMessage addr t) .moved b'
  | reanalyzeMessages {addr t : Nat} {b' : MessageBuffer}
      (h : b.reanalyzeMessages addr t = .ok b') : Done b (.reanalyzeMessages addr t) .moved b'
  | reanalyzeAllMessages {t : Nat} {b' : MessageBuffer} (h : b.reanalyzeAllMessages t = .ok b') :
      Done b (.reanalyzeAllMessages t) .moved b'

theorem done_of_exec {op : BufferOp} {res : BufferResult} (h : op.exec b = .ok (b', res)) :
    Done b op res b' := by
  cases op with
  | enqueue flags m t delta rnd =>
    obtain ⟨⟨b₁, a⟩, hexec, h⟩ := bind_eq_ok.mp h
    obtain ⟨rfl, rfl⟩ := Prod.mk.inj (Except.ok.inj h)
    exact .enqueue hexec
  | dequeue t decrement =>
    obtain ⟨⟨b₁, m⟩, hexec, h⟩ := bind_eq_ok.mp h
    obtain ⟨rfl, rfl⟩ := Prod.mk.inj (Except.ok.inj h)
    exact .dequeue hexec
  | delayHead flags t delta rnd =>
    obtain ⟨⟨b₁, a⟩, hexec, h⟩ := bind_eq_ok.mp h
    obtain ⟨rfl, rfl⟩ := Prod.mk.inj (Except.ok.inj h)
    exact .delayHead hexec
  | recycle t latency =>
    obtain ⟨⟨b₁, a⟩, hexec, h⟩ := bind_eq_ok.mp h
    obtain ⟨rfl, rfl⟩ := Prod.mk.inj (Except.ok.inj h)
    exact .recycle hexec
  | stallMessage addr t =>
    obtain ⟨b₁, hexec, h⟩ := bind_eq_ok.mp h
    obtain ⟨rfl, rfl⟩ := Prod.mk.inj (Except.ok.inj h)
    exact .stallMessage hexec
  | reanalyzeMessages addr t =>
    obtain ⟨b₁, hexec, h⟩ := bind_eq_ok.mp h
    obtain ⟨rfl, rfl⟩ := Prod.mk.inj (Except.ok.inj h)
    exact .reanalyzeMessages hexec
  | reanalyzeAllMessages t =>
    obtain ⟨b₁, hexec, h⟩ := bind_eq_ok.mp h
    obtain ⟨rfl, rfl⟩ := Prod.mk.inj (Except.ok.inj h)
    exact .reanalyzeAllMessages hexec

/-- The heap in order, all counters different and drawn, the addresses of the map increasing and its
messages counted. -/
structure WellFormed (b : MessageBuffer) : Prop where
  sorted : b.prioHeap.Pairwise fun x y => x.le y = true
  nodup : (b.messages.map Message.msgCounter).Nodup
  counter_le : ∀ m ∈ b.messages, m.msgCounter ≤ b.msgCounter
  addresses : (b.stallMsgMap.map Prod.fst).Pairwise (· < ·)
  stallMapSize : b.stallMapSize = b.stalled.length

theorem wellFormed_new (bufferSize : Nat) (ordered randomization : Bool) :
    (new bufferSize ordered randomization).WellFormed where
  sorted := .nil
  nodup := nodup_nil
  counter_le := fun _ h => nomatch h
  addresses := .nil
  stallMapSize := rfl

/-- The messages `X` leave a buffer and `Y` enter it, each with a counter that is new or of one of
`X`. -/
structure Exchanges (b b' : MessageBuffer) (X Y : List Message) : Prop where
  perm : ∃ R, b.messages.Perm (X ++ R) ∧ b'.messages.Perm (Y ++ R)
  mono : b.msgCounter ≤ b'.msgCounter
  nodup : (Y.map Message.msgCounter).Nodup
  fresh : ∀ c ∈ Y.map Message.msgCounter,
    (b.msgCounter < c ∧ c ≤ b'.msgCounter) ∨ c ∈ X.map Message.msgCounter

theorem Exchanges.counters_nodup {X Y : List Message} (h : Exchanges b b' X Y)
    (hb : b.WellFormed) : (b'.messages.map Message.msgCounter).Nodup := by
  obtain ⟨R, hX, hY⟩ := h.perm
  have hold := ((hX.map Message.msgCounter).nodup_iff).mp hb.nodup
  rw [map_append, nodup_append] at hold
  rw [(hY.map Message.msgCounter).nodup_iff, map_append, nodup_append]
  refine ⟨h.nodup, hold.2.1, fun c hc d hd hcd => ?_⟩
  subst hcd
  rcases h.fresh c hc with ⟨hlt, -⟩ | hmem
  · -- a new counter exceeds those of the messages that stay
    obtain ⟨m, hm, rfl⟩ := mem_map.mp hd
    have hle := hb.counter_le m (hX.mem_iff.mpr (mem_append_right X hm))
    omega
  · exact hold.2.2 c hmem c hd rfl

theorem Exchanges.counter_le {X Y : List Message} (h : Exchanges b b' X Y)
    (hb : b.WellFormed) : ∀ m ∈ b'.messages, m.msgCounter ≤ b'.msgCounter := by
  intro m hm
  obtain ⟨R, hX, hY⟩ := h.perm
  have hold : ∀ n ∈ X ++ R, n.msgCounter ≤ b'.msgCounter := fun n hn =>
    (hb.counter_le n (hX.mem_iff.mpr hn)).trans h.mono
  rcases mem_append.mp (hY.mem_iff.mp hm) with hm | hm
  · rcases h.fresh _ (mem_map_of_mem hm) with ⟨-, hle⟩ | hmem
    · exact hle
    · obtain ⟨n, hn, hc⟩ := mem_map.mp hmem
      rw [← hc]
      exact hold n (mem_append_left R hn)
  · exact hold m (mem_append_right X hm)

structure Trades (b : MessageBuffer) (op : BufferOp) (res : BufferResult) (b' : MessageBuffer) :
    Prop where
  wellFormed : b'.WellFormed
  exchange : ∃ X Y, Exchanges b b' X Y ∧
    (op.enqueued.map Message.body ++ X.map Message.body).Perm
      (res.dequeuedMessages.map Message.body ++ Y.map Message.body)

section

variable (addr : Nat) (m : Message) (map : List (Nat × List Message))

theorem stalled_stallInsert :
    ((stallInsert addr m map).flatMap Prod.snd).Perm (m :: map.flatMap Prod.snd) := by
  induction map with
  | nil => exact List.Perm.refl _
  | cons e map ih =>
    obtain ⟨a, l⟩ := e
    unfold stallInsert
    split_ifs with h₁ h₂
    · exact List.Perm.refl _
    · simp only [flatMap_cons, append_assoc]
      exact perm_middle
    · simp only [flatMap_cons]
      exact (ih.append_left l).trans perm_middle

theorem addresses_stallInsert (h : (map.map Prod.fst).Pairwise (· < ·)) :
    ((stallInsert addr m map).map Prod.fst).Pairwise (· < ·) ∧
      ∀ a ∈ (stallInsert addr m map).map Prod.fst, a = addr ∨ a ∈ map.map Prod.fst := by
  induction map with
  | nil => exact ⟨pairwise_singleton _ _, fun a ha => .inl (mem_singleton.mp ha)⟩
  | cons e map ih =>
    obtain ⟨a, l⟩ := e
    rw [map_cons, pairwise_cons] at h
    unfold stallInsert
    split_ifs with h₁ h₂
    · refine ⟨?_, fun c hc => mem_cons.mp hc⟩
      rw [map_cons, map_cons, pairwise_cons, pairwise_cons]
      refine ⟨fun c hc => ?_, h⟩
      rcases mem_cons.mp hc with rfl | hc
      · exact h₁
      · exact h₁.trans (h.1 c hc)
    · refine ⟨?_, fun c hc => .inr hc⟩
      rw [map_cons, pairwise_cons]
      exact h
    · obtain ⟨hpair, hmem⟩ := ih h.2
      refine ⟨?_, fun c hc => ?_⟩
      · rw [map_cons, pairwise_cons]
        refine ⟨fun c hc => ?_, hpair⟩
        rcases hmem c hc with rfl | hc
        · exact lt_of_le_of_ne (not_lt.mp h₁) (Ne.symm h₂)
        · exact h.1 c hc
      · rcases mem_cons.mp hc with rfl | hc
        · exact .inr (mem_cons_self ..)
        · exact (hmem c hc).imp id (mem_cons_of_mem _)

end

theorem stalled_lookup {l : List Message} {map : List (Nat × List Message)}
    (h : (map.map Prod.fst).Pairwise (· < ·)) (hl : map.lookup addr = some l) :
    (map.flatMap Prod.snd).Perm
      (l ++ (map.filter fun e => e.1 ≠ addr).flatMap Prod.snd) := by
  induction map with
  | nil => cases hl
  | cons e map ih =>
    obtain ⟨a, l'⟩ := e
    rw [map_cons, pairwise_cons] at h
    rw [lookup_cons] at hl
    by_cases haddr : addr = a
    · -- the addresses increase, so no other entry has this one
      subst haddr
      have hkeep : map.filter (fun e => e.1 ≠ addr) = map := by
        rw [filter_eq_self]
        intro e he
        have := h.1 e.1 (mem_map_of_mem he)
        simp only [ne_eq, decide_not, Bool.not_eq_true', decide_eq_false_iff_not]
        omega
      simp only [beq_self_eq_true, Option.some.injEq] at hl
      rw [filter_cons_of_neg (by simp), hkeep, flatMap_cons, hl]
    · have hne : (addr == a) = false := by simpa using haddr
      simp only [hne] at hl
      rw [filter_cons_of_pos (by simpa using Ne.symm haddr), flatMap_cons, flatMap_cons]
      refine ((ih h.2 hl).append_left l').trans ?_
      rw [← append_assoc, ← append_assoc]
      exact perm_append_comm.append_right _

theorem push_sorted (m : Message) {h : List Message}
    (hs : h.Pairwise fun x y => x.le y = true) : (push m h).Pairwise fun x y => x.le y = true :=
  hs.orderedInsert m h

theorem foldl_push_perm (l : List Message) :
    ∀ h : List Message, (l.foldl (fun h m => push m h) h).Perm (l ++ h) := by
  induction l with
  | nil => exact fun h => List.Perm.refl h
  | cons m l ih =>
    intro h
    exact (ih (push m h)).trans (((push_perm m h).append_left l).trans perm_middle)

theorem foldl_push_sorted (l : List Message) : ∀ h : List Message,
    (h.Pairwise fun x y => x.le y = true) →
      (l.foldl (fun h m => push m h) h).Pairwise fun x y => x.le y = true := by
  induction l with
  | nil => exact fun h hs => hs
  | cons m l ih => exact fun h hs => ih _ (push_sorted m hs)

theorem add_trade {α : Type} {e e' x y r d o f : Multiset α} (h : e + x = d + y)
    (h' : e' + (y + r) = o + f) : e + e' + (x + r) = d + o + f := by
  calc e + e' + (x + r) = (e + x) + (e' + r) := by abel
    _ = d + (e' + (y + r)) := by rw [h]; abel
    _ = d + o + f := by rw [h']; abel

theorem messages_of_heap {m₀ : Message} (hheap : b.prioHeap = m₀ :: rest) :
    b.messages.Perm ([m₀] ++ (rest ++ b.stalled)) := by
  rw [messages, hheap]
  exact List.Perm.refl _

section Trades

variable (hb : b.WellFormed)
include hb

variable {t a : Nat}

theorem trades_enqueue {flags : RubyFlags} {m : Message} {delta rnd : Nat}
    (h : b.enqueue flags m t delta rnd = .ok (b', a)) :
    Trades b (.enqueue flags m t delta rnd) (.enqueued a) b' := by
  obtain ⟨-, -, rfl⟩ := enqueue_ok h
  have hex : Exchanges b (afterEnqueue flags b m t delta rnd a) [] [{ m with
      delayedTicks := m.delayedTicks + (t - m.lastEnqueueTime)
      lastEnqueueTime := a
      msgCounter := b.msgCounter + 1 }] := by
    refine ⟨⟨b.messages, List.Perm.refl _, (push_perm _ _).append_right _⟩, le_succ _,
      nodup_singleton _, fun c hc => .inl ?_⟩
    rw [map_singleton, mem_singleton] at hc
    rw [hc]
    exact ⟨lt_succ_self _, le_refl _⟩
  exact ⟨⟨push_sorted _ hb.sorted, hex.counters_nodup hb, hex.counter_le hb, hb.addresses,
    hb.stallMapSize⟩, _, _, hex, List.Perm.refl _⟩

theorem trades_dequeue {decrement : Bool} {m : Message} (h : b.dequeue t decrement = .ok (b', m)) :
    Trades b (.dequeue t decrement) (.dequeued m) b' := by
  obtain ⟨m₀, rest, hheap, -, rfl, rfl⟩ := dequeue_ok h
  have hex : Exchanges b { b with
      prioHeap := rest
      sizeAtCycleStart := if b.timeLastTimePop < t then b.prioHeap.length else b.sizeAtCycleStart
      timeLastTimePop := if b.timeLastTimePop < t then t else b.timeLastTimePop
      bufMsgs := if decrement then b.bufMsgs - 1 else b.bufMsgs } [m₀] [] := by
    exact ⟨⟨rest ++ b.stalled, messages_of_heap hheap, List.Perm.refl _⟩, le_refl _, nodup_nil,
      fun _ hc => nomatch hc⟩
  refine ⟨⟨?_, hex.counters_nodup hb, hex.counter_le hb, hb.addresses, hb.stallMapSize⟩, _, _, hex,
    List.Perm.refl _⟩
  have hsorted := hb.sorted
  rw [hheap] at hsorted
  exact hsorted.of_cons

theorem trades_delayHead {flags : RubyFlags} {delta rnd : Nat}
    (h : b.delayHead flags t delta rnd = .ok (b', a)) :
    Trades b (.delayHead flags t delta rnd) (.enqueued a) b' := by
  obtain ⟨m₀, rest, hheap, h⟩ := delayHead_ok h
  obtain ⟨-, -, rfl⟩ := enqueue_ok h
  have hsorted := hb.sorted
  rw [hheap] at hsorted
  have hex : Exchanges b (afterEnqueue flags { b with prioHeap := rest } m₀ t delta rnd a) [m₀]
      [{ m₀ with
      delayedTicks := m₀.delayedTicks + (t - m₀.lastEnqueueTime)
      lastEnqueueTime := a
      msgCounter := b.msgCounter + 1 }] := by
    refine ⟨⟨rest ++ b.stalled, messages_of_heap hheap, (push_perm _ _).append_right _⟩,
      le_succ _, nodup_singleton _, fun c hc => .inl ?_⟩
    rw [map_singleton, mem_singleton] at hc
    rw [hc]
    exact ⟨lt_succ_self _, le_refl _⟩
  exact ⟨⟨push_sorted _ hsorted.of_cons, hex.counters_nodup hb, hex.counter_le hb, hb.addresses,
    hb.stallMapSize⟩, _, _, hex, List.Perm.refl _⟩

theorem trades_recycle {latency : Nat} (h : b.recycle t latency = .ok (b', a)) :
    Trades b (.recycle t latency) .moved b' := by
  obtain ⟨m₀, rest, hheap, -, rfl⟩ := recycle_ok h
  have hsorted := hb.sorted
  rw [hheap] at hsorted
  have hex : Exchanges b
      { b with prioHeap := push { m₀ with lastEnqueueTime := t + latency } rest }
      [m₀] [{ m₀ with lastEnqueueTime := t + latency }] := by
    -- a recycled message keeps its counter
    exact ⟨⟨rest ++ b.stalled, messages_of_heap hheap, (push_perm _ _).append_right _⟩, le_refl _,
      nodup_singleton _, fun c hc => .inr hc⟩
  exact ⟨⟨push_sorted _ hsorted.of_cons, hex.counters_nodup hb, hex.counter_le hb, hb.addresses,
    hb.stallMapSize⟩, _, _, hex, List.Perm.refl _⟩

theorem trades_stallMessage {addr : Nat} (h : b.stallMessage addr t = .ok b') :
    Trades b (.stallMessage addr t) .moved b' := by
  obtain ⟨b₁, m, hdeq, hb'⟩ := stallMessage_ok h
  have hwf := (trades_dequeue hb hdeq).wellFormed
  obtain ⟨m₀, rest, hheap, -, hm, hb₁⟩ := dequeue_ok hdeq
  have hheap' : b'.prioHeap = rest := by rw [hb', hb₁]
  have hmap' : b'.stallMsgMap = stallInsert addr m b.stallMsgMap := by rw [hb', hb₁]
  have hcounter' : b'.msgCounter = b.msgCounter := by rw [hb', hb₁]
  have hsize' : b'.stallMapSize = b.stallMapSize + 1 := by rw [hb', hb₁]
  have hins := stalled_stallInsert addr m b.stallMsgMap
  have hex : Exchanges b b' [m₀] [m] := by
    refine ⟨⟨rest ++ b.stalled, messages_of_heap hheap, ?_⟩, hcounter'.ge, nodup_singleton _,
      fun c hc => .inr ?_⟩
    · -- the message goes from the heap into the map
      rw [messages, stalled, hheap', hmap']
      exact (hins.append_left rest).trans perm_middle
    · rw [hm] at hc
      exact hc
  refine ⟨⟨?_, hex.counters_nodup hb, hex.counter_le hb, ?_, ?_⟩, _, _, hex, ?_⟩
  · rw [hheap']
    rw [hb₁] at hwf
    exact hwf.sorted
  · rw [hmap']
    exact (addresses_stallInsert addr m _ hb.addresses).1
  · rw [hsize', hb.stallMapSize, stalled, stalled, hmap', hins.length_eq, length_cons]
    push_cast
    rfl
  · rw [hm]
    exact List.Perm.refl _

theorem trades_restore {l : List Message} {map : List (Nat × List Message)} {op : BufferOp}
    (t : Nat) (hmap : b.stalled.Perm (l ++ map.flatMap Prod.snd))
    (haddr : (map.map Prod.fst).Pairwise (· < ·)) (hop : op.enqueued = []) :
    Trades b op .moved { b.restore l t with stallMsgMap := map } := by
  have hex : Exchanges b { b.restore l t with stallMsgMap := map } l
      (rekeyed t b.msgCounter l) := by
    refine ⟨⟨b.prioHeap ++ map.flatMap Prod.snd, ?_, ?_⟩, Nat.le_add_right _ _, ?_, ?_⟩
    · refine (hmap.append_left b.prioHeap).trans ?_
      rw [← append_assoc, ← append_assoc]
      exact perm_append_comm.append_right _
    · rw [← append_assoc]
      exact (foldl_push_perm _ _).append_right _
    · rw [rekeyed_counters]
      exact nodup_range'
    · intro c hc
      rw [rekeyed_counters, mem_range'_1] at hc
      refine .inl ⟨by omega, ?_⟩
      show c ≤ b.msgCounter + l.length
      omega
  refine ⟨⟨foldl_push_sorted _ _ hb.sorted, hex.counters_nodup hb, hex.counter_le hb, haddr, ?_⟩,
    _, _, hex, ?_⟩
  · show b.stallMapSize - l.length = ((map.flatMap Prod.snd).length : Int)
    rw [hb.stallMapSize, hmap.length_eq, length_append]
    push_cast
    omega
  · rw [hop, rekeyed_body]
    exact List.Perm.refl _

theorem trades_exec {op : BufferOp} {res : BufferResult} (h : op.exec b = .ok (b', res)) :
    Trades b op res b' := by
  cases done_of_exec h with
  | enqueue h => exact trades_enqueue hb h
  | dequeue h => exact trades_dequeue hb h
  | delayHead h => exact trades_delayHead hb h
  | recycle h => exact trades_recycle hb h
  | stallMessage h => exact trades_stallMessage hb h
  | @reanalyzeMessages addr t b' h =>
    obtain ⟨l, hl, rfl⟩ := reanalyzeMessages_ok h
    refine trades_restore hb t (stalled_lookup hb.addresses hl) ?_ rfl
    exact hb.addresses.sublist (filter_sublist.map Prod.fst)
  | @reanalyzeAllMessages t b' h =>
    rw [reanalyzeAllMessages_ok h]
    refine trades_restore hb t ?_ .nil rfl
    rw [flatMap_nil, append_nil]

theorem conserved {C : MessageBuffer → BufferOp → Prop} {ops : List BufferOp} {out : List Message}
    (h : Run C b ops out b') : b'.WellFormed ∧
      ((ops.flatMap BufferOp.enqueued).map Message.body ++ b.messages.map Message.body).Perm
        (out.map Message.body ++ b'.messages.map Message.body) := by
  induction h with
  | nil b => exact ⟨hb, List.Perm.refl _⟩
  | @cons b b₁ b' op ops res out hC hexec hrest ih =>
    obtain ⟨hwf, X, Y, hex, htrade⟩ := trades_exec hb hexec
    obtain ⟨hwf', hperm⟩ := ih hwf
    refine ⟨hwf', ?_⟩
    obtain ⟨R, hX, hY⟩ := hex.perm
    rw [flatMap_cons, map_append, map_append]
    -- as multisets of bodies: `op` trades `X` for `Y`, and `ops` does the rest
    have hX := hX.map Message.body
    have hY := hY.map Message.body
    rw [← Multiset.coe_eq_coe] at htrade hperm hX hY ⊢
    simp only [map_append, ← Multiset.coe_add] at htrade hperm hX hY ⊢
    rw [hX]
    rw [hY] at hperm
    exact add_trade htrade hperm

end Trades

def FifoOp : BufferOp → Prop
  | .enqueue flags _ _ _ _ => flags.warmupEnabled = false
  | .dequeue _ _ => True
  | _ => False

structure Fifo (b : MessageBuffer) : Prop where
  strict : b.strictFifo = true
  arrived : ∀ x ∈ b.prioHeap, x.lastEnqueueTime ≤ b.lastArrivalTime

theorem push_eq_append {h : List Message} (hm : ∀ x ∈ h, ¬ m.le x = true) :
    push m h = h ++ [m] := by
  induction h with
  | nil => rfl
  | cons x h ih =>
    show orderedInsert _ m (x :: h) = _
    rw [orderedInsert_cons, if_neg (hm x (mem_cons_self ..)), cons_append]
    exact congrArg (x :: ·) (ih fun y hy => hm y (mem_cons_of_mem _ hy))

theorem Fifo.enqueue (hb : b.WellFormed) (hf : b.Fifo) (hwarm : flags.warmupEnabled = false)
    (h : b.enqueue flags m t delta rnd = .ok (b', a)) :
    b'.Fifo ∧ b'.prioHeap.map Message.body = b.prioHeap.map Message.body ++ [m.body] := by
  obtain ⟨-, hlast, rfl⟩ := enqueue_ok h
  have hle : ∀ x ∈ b.prioHeap, x.lastEnqueueTime ≤ a := fun x hx =>
    (hf.arrived x hx).trans (hlast hf.strict)
  have hpush : (afterEnqueue flags b m t delta rnd a).prioHeap = b.prioHeap ++ [{ m with
      delayedTicks := m.delayedTicks + (t - m.lastEnqueueTime)
      lastEnqueueTime := a
      msgCounter := b.msgCounter + 1 }] := by
    -- it arrives no earlier than the others and has the greatest counter
    apply push_eq_append
    intro x hx
    have hcounter := hb.counter_le x (mem_append_left _ hx)
    have htime := hle x hx
    rw [Message.le_iff]
    dsimp only
    omega
  constructor
  · refine ⟨hf.strict, fun x hx => ?_⟩
    show x.lastEnqueueTime ≤ if flags.warmupEnabled then _ else a
    rw [hwarm, if_neg Bool.false_ne_true]
    rw [hpush, mem_append, mem_singleton] at hx
    rcases hx with hx | rfl
    · exact hle x hx
    · exact le_refl a
  · rw [hpush, map_append]
    rfl

theorem fifo_order {C : MessageBuffer → BufferOp → Prop} {ops : List BufferOp} {out : List Message}
    (h : Run C b ops out b') (hb : b.WellFormed) (hf : b.Fifo) (hops : ∀ op ∈ ops, FifoOp op) :
    out.map Message.body ++ b'.prioHeap.map Message.body =
      b.prioHeap.map Message.body ++ (ops.flatMap BufferOp.enqueued).map Message.body := by
  induction h with
  | nil b => simp
  | @cons b b₁ b' op ops res out hC hexec hrest ih =>
    have hb₁ := (trades_exec hb hexec).wellFormed
    have hop := hops op (mem_cons_self ..)
    have hops' : ∀ op ∈ ops, FifoOp op := fun op h => hops op (mem_cons_of_mem _ h)
    cases done_of_exec hexec with
    | enqueue h =>
      obtain ⟨hf₁, hheap⟩ := hf.enqueue hb hop h
      have hrest := ih hb₁ hf₁ hops'
      rw [hheap, append_assoc] at hrest
      exact hrest
    | dequeue h =>
      obtain ⟨m₀, rest, hheap, -, rfl, rfl⟩ := dequeue_ok h
      have hrest := ih hb₁
        ⟨hf.strict, fun x hx => hf.arrived x (hheap ▸ mem_cons_of_mem _ hx)⟩ hops'
      rw [hheap, map_cons, cons_append]
      exact congrArg (m₀.body :: ·) hrest
    | delayHead | recycle | stallMessage | reanalyzeMessages | reanalyzeAllMessages =>
      exact absurd hop not_false

/-- **Conservation and order.** Messages enqueued are dequeued or held; a dequeue gives the least
that has arrived; and a strict FIFO buffer outside warm-up keeps the order. -/
theorem conservation_and_order {bufferSize : Nat} {ordered randomization : Bool}
    {ops : List BufferOp} {out : List Message} {b : MessageBuffer}
    (h : Run (fun _ _ => True) (new bufferSize ordered randomization) ops out b) :
    ((ops.flatMap BufferOp.enqueued).map Message.body).Perm
      (out.map Message.body ++ b.messages.map Message.body) ∧
    b.stallMapSize = b.stalled.length ∧
    (∀ t decrement b' m, b.dequeue t decrement = .ok (b', m) →
      m.lastEnqueueTime ≤ t ∧ ∃ m₀, b.prioHeap = m₀ :: b'.prioHeap ∧
        m = { m₀ with delayedTicks := m.delayedTicks } ∧
        ∀ x ∈ b.prioHeap, m₀.lastEnqueueTime < x.lastEnqueueTime ∨
          (m₀.lastEnqueueTime = x.lastEnqueueTime ∧ m₀.msgCounter ≤ x.msgCounter)) ∧
    (ordered = true → (∀ op ∈ ops, FifoOp op) →
      out.map Message.body ++ b.prioHeap.map Message.body =
        (ops.flatMap BufferOp.enqueued).map Message.body) := by
  have hnew := wellFormed_new bufferSize ordered randomization
  obtain ⟨hwf, hperm⟩ := conserved hnew h
  refine ⟨?_, hwf.stallMapSize, fun t decrement b' m hdeq => ?_, fun hstrict hops => ?_⟩
  · have hempty : (new bufferSize ordered randomization).messages = [] := rfl
    rwa [hempty, map_nil, append_nil] at hperm
  · obtain ⟨m₀, rest, hheap, harr, rfl, rfl⟩ := dequeue_ok hdeq
    refine ⟨harr, m₀, hheap, rfl, fun x hx => Message.le_iff.mp ?_⟩
    have hsorted := hwf.sorted
    rw [hheap] at hx hsorted
    rcases mem_cons.mp hx with rfl | hx
    · exact Message.le_iff.mpr (.inr ⟨rfl, le_refl _⟩)
    · exact rel_of_pairwise_cons hsorted hx
  · exact fifo_order h hnew ⟨hstrict, fun _ hx => nomatch hx⟩ hops

def sample (time : Nat) : Message := ⟨time, time, 0, 0, .singleton 0⟩

def twoEnqueues (flags : RubyFlags) (δ : Nat) : List BufferOp :=
  [.enqueue flags (sample 0) 0 δ 0, .enqueue flags (sample 1) 1 1 0, .dequeue 2 true]

theorem conservation_and_order_two : ∃ out b,
    Run (fun _ _ => True) (new 0 true false) (twoEnqueues ⟨false, false⟩ 1) out b ∧
    out.map Message.body ++ b.prioHeap.map Message.body =
      [(sample 0).body, (sample 1).body] := by
  have hrun : Run (fun _ _ => True) (new 0 true false) (twoEnqueues ⟨false, false⟩ 1) _ _ :=
    (run_of_simulate (fun _ _ => true) _ _ rfl).mono fun _ _ _ => trivial
  refine ⟨_, _, hrun, (conservation_and_order hrun).2.2.2 rfl ?_⟩
  intro op hop
  simp only [twoEnqueues, mem_cons, not_mem_nil, or_false] at hop
  rcases hop with rfl | rfl | rfl
  · exact rfl
  · exact rfl
  · trivial

/-- **During cache warm-up a strict FIFO buffer does not keep the order** of two messages. -/
theorem warmup_overtakes : ∃ out b,
    Run (fun _ op => (op matches .enqueue .. | .dequeue ..) = true) (new 0 true false)
      (twoEnqueues ⟨false, true⟩ 5) out b ∧
    out.map Message.body = [(sample 1).body] ∧ (sample 1).body ≠ (sample 0).body ∧
    ((twoEnqueues ⟨false, true⟩ 5).flatMap BufferOp.enqueued).map Message.body =
      [(sample 0).body, (sample 1).body] :=
  ⟨_, _, run_of_simulate (fun _ op => op matches .enqueue .. | .dequeue ..) _ _ rfl, rfl,
    by decide, rfl⟩

end MessageBuffer

end NocSwap
