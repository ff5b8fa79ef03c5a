import NocSwap.Ruby.Correct.BufferRun

/-!
# Runs of a message buffer: the age of stalled messages
-/

namespace NocSwap

open MessageBuffer List

/-! ### Births -/

structure Birth where
  rank : Nat
  arrival : Nat

/-- An enqueued message is born with the counter it draws; one that is put back keeps its birth. -/
def BufferOp.births (b : MessageBuffer) (op : BufferOp) (res : BufferResult) (g : Nat → Birth)
    (c : Nat) : Birth :=
  if c ≤ b.msgCounter then g c
  else
    match (op.restored b)[c - (b.msgCounter + 1)]?, res with
    | some (_, m), _ => g m.msgCounter
    | none, .enqueued arrival => ⟨c, arrival⟩
    | none, _ => g c

namespace MessageBuffer

inductive Aged (bufferSize : Nat) (ordered randomization : Bool) :
    MessageBuffer → (Nat → Birth) → Prop
  | new : Aged bufferSize ordered randomization (new bufferSize ordered randomization)
      fun c => ⟨c, 0⟩
  | step {b b' : MessageBuffer} {g : Nat → Birth} {op : BufferOp} {res : BufferResult}
      (h : Aged bufferSize ordered randomization b g) (exec : op.exec b = .ok (b', res)) :
      Aged bufferSize ordered randomization b' (op.births b res g)

def trace (b : MessageBuffer) (g : Nat → Birth) :
    List BufferOp → Option (MessageBuffer × (Nat → Birth))
  | [] => some (b, g)
  | op :: ops =>
    match op.exec b with
    | .ok (b', res) => trace b' (op.births b res g) ops
    | .error _ => none

variable {b b' : MessageBuffer}

variable {bufferSize : Nat} {ordered randomization : Bool} {g : Nat → Birth}

theorem Aged.trace (h : Aged bufferSize ordered randomization b g) (ops : List BufferOp)
    {r : MessageBuffer × (Nat → Birth)} (htrace : trace b g ops = some r) :
    Aged bufferSize ordered randomization r.1 r.2 := by
  induction ops generalizing b g with
  | nil =>
    obtain rfl := Option.some.inj htrace
    exact h
  | cons op ops ih =>
    rw [MessageBuffer.trace] at htrace
    split at htrace
    · rename_i b₁ res hexec
      exact ih (h.step hexec) htrace
    · cases htrace

theorem Aged.wellFormed (h : Aged bufferSize ordered randomization b g) : b.WellFormed := by
  induction h with
  | new => exact wellFormed_new ..
  | step _ hexec ih => exact (trades_exec ih hexec).wellFormed

structure Younger (g : Nat → Birth) (t : Nat) (m y : Message) : Prop where
  after : (g m.msgCounter).rank < (g y.msgCounter).rank
  notReady : t ≤ (g y.msgCounter).arrival

/-- Among the messages `out` the one with counter `d` comes only after the one with counter `c`. -/
def LeavesFirst (out : List Message) (c d : Nat) : Prop :=
  d ∈ out.map Message.msgCounter → [c, d].Sublist (out.map Message.msgCounter)

def Untouched (lo hi : Nat) (b : MessageBuffer) : BufferOp → Prop
  | .recycle .. | .delayHead .. | .stallMessage .. =>
    ∀ m rest, b.prioHeap = m :: rest → ¬ (lo < m.msgCounter ∧ m.msgCounter ≤ hi)
  | _ => True

/-- While they stay in the heap, the messages put back leave before those stalled later, before
younger ones, and before those that enter later and are not ready earlier. -/
def KeepsAge (b : MessageBuffer) (g : Nat → Birth) (op : BufferOp) (b' : MessageBuffer) : Prop :=
  ∀ ops out b'', Run (Untouched b.msgCounter b'.msgCounter) b' ops out b'' →
    ∀ (i addr : Nat) (m : Message), (op.restored b)[i]? = some (addr, m) →
      (∀ (j : Nat) (m' : Message), i < j → (op.restored b)[j]? = some (addr, m') →
        LeavesFirst out (b.msgCounter + 1 + i) (b.msgCounter + 1 + j)) ∧
      (∀ (j addr' : Nat) (m' : Message), addr' ≠ addr → (op.restored b)[j]? = some (addr', m') →
        Younger g op.time m m' →
        LeavesFirst out (b.msgCounter + 1 + i) (b.msgCounter + 1 + j)) ∧
      (∀ y ∈ b.prioHeap, Younger g op.time m y →
        LeavesFirst out (b.msgCounter + 1 + i) y.msgCounter) ∧
      (∀ y ∈ out, b'.msgCounter < y.msgCounter → op.time ≤ y.lastEnqueueTime →
        LeavesFirst out (b.msgCounter + 1 + i) y.msgCounter)

/-- A message that is put back has a younger one before it, ready in the heap or stalled on a
smaller address. -/
def Overtaken (b : MessageBuffer) (g : Nat → Birth) (op : BufferOp) : Prop :=
  ∃ (i addr : Nat) (m : Message), (op.restored b)[i]? = some (addr, m) ∧
    ((∃ y ∈ b.prioHeap, y.lastEnqueueTime ≤ op.time ∧ Younger g op.time m y) ∨
      ∃ j < i, ∃ (addr' : Nat) (m' : Message), addr' ≠ addr ∧ (op.restored b)[j]? = some (addr', m') ∧
        Younger g op.time m m')

/-- Every message of the heap with a counter in `D` comes after `x`, and so does every one still to
come. -/
structure Behind (b : MessageBuffer) (x : Message) (D : Nat → Prop) : Prop where
  mem : x ∈ b.prioHeap
  later : ∀ y ∈ b.prioHeap, D y.msgCounter → ¬ y.le x = true
  drawn : ∀ d, D d → d ≤ b.msgCounter

variable {x : Message} {D : Nat → Prop}

theorem Behind.update (h : b.Behind x D) (hcounter : b.msgCounter ≤ b'.msgCounter)
    (hheap : x ∈ b'.prioHeap ∧ ∀ y ∈ b'.prioHeap, y ∈ b.prioHeap ∨ b.msgCounter < y.msgCounter ∨
      ∃ z ∈ b.prioHeap, z.msgCounter = y.msgCounter ∧ z.lastEnqueueTime ≤ y.lastEnqueueTime) :
    b'.Behind x D := by
  obtain ⟨hx, hnew⟩ := hheap
  refine ⟨hx, fun y hy hD => ?_, fun d hd => (h.drawn d hd).trans hcounter⟩
  rcases hnew y hy with hy | hlt | ⟨z, hz, hc, htime⟩
  · exact h.later y hy hD
  · exact absurd (h.drawn _ hD) (Nat.not_le.mpr hlt)
  · have hle := h.later z hz (hc ▸ hD)
    rw [Message.le_iff] at hle ⊢
    omega

variable {y : Message}

variable {t : Nat} {l : List Message}

theorem mem_rekeyed {c : Nat} (h : y ∈ rekeyed t c l) :
    y.lastEnqueueTime = t ∧ c < y.msgCounter ∧ y.msgCounter ≤ c + l.length := by
  have hcounter := mem_map_of_mem (f := Message.msgCounter) h
  rw [rekeyed_counters, mem_range'_1] at hcounter
  refine ⟨?_, by omega, by omega⟩
  clear hcounter
  induction l generalizing c with
  | nil => cases h
  | cons m l ih =>
    rcases mem_cons.mp h with rfl | h
    · rfl
    · exact ih h

theorem mem_restore :
    y ∈ (b.restore l t).prioHeap ↔ y ∈ rekeyed t b.msgCounter l ∨ y ∈ b.prioHeap := by
  rw [restore, (foldl_push_perm _ _).mem_iff, mem_append]

variable {lo hi : Nat}

variable {op : BufferOp} {res : BufferResult}

theorem Behind.exec (hb : b.WellFormed) (h : b.Behind x D) (hlo : lo < x.msgCounter)
    (hhi : x.msgCounter ≤ hi) (hop : Untouched lo hi b op) (hexec : op.exec b = .ok (b', res))
    (hres : res.dequeuedMessages = []) : b'.Behind x D := by
  obtain ⟨-, X, Y, hex, -⟩ := trades_exec hb hexec
  -- a first message that may be touched is not `x`
  have hmem : ∀ {m : Message} {rest : List Message}, b.prioHeap = m :: rest →
      ¬ (lo < m.msgCounter ∧ m.msgCounter ≤ hi) → x ∈ rest := by
    intro m rest hheap hm
    have hx := h.mem
    rw [hheap, mem_cons] at hx
    rcases hx with rfl | hx
    · exact absurd ⟨hlo, hhi⟩ hm
    · exact hx
  have hrest : ∀ {m : Message} {rest : List Message}, b.prioHeap = m :: rest →
      ∀ y ∈ rest, y ∈ b.prioHeap := fun hheap y hy => hheap ▸ mem_cons_of_mem _ hy
  apply h.update hex.mono
  cases done_of_exec hexec with
  | enqueue henq =>
    obtain ⟨-, -, rfl⟩ := enqueue_ok henq
    simp only [afterEnqueue, (push_perm _ _).mem_iff, mem_cons]
    refine ⟨.inr h.mem, ?_⟩
    rintro y (rfl | hy)
    · exact .inr (.inl (Nat.lt_succ_self _))
    · exact .inl hy
  | dequeue => cases hres
  | delayHead hdelay =>
    obtain ⟨m₀, rest, hheap, henq⟩ := delayHead_ok hdelay
    obtain ⟨-, -, rfl⟩ := enqueue_ok henq
    simp only [afterEnqueue, (push_perm _ _).mem_iff, mem_cons]
    refine ⟨.inr (hmem hheap (hop _ _ hheap)), ?_⟩
    rintro y (rfl | hy)
    · exact .inr (.inl (Nat.lt_succ_self _))
    · exact .inl (hrest hheap y hy)
  | recycle hrec =>
    obtain ⟨m₀, rest, hheap, hready, rfl⟩ := recycle_ok hrec
    simp only [(push_perm _ _).mem_iff, mem_cons]
    refine ⟨.inr (hmem hheap (hop _ _ hheap)), ?_⟩
    rintro y (rfl | hy)
    · refine .inr (.inr ⟨m₀, ?_, rfl, hready.trans (Nat.le_add_right _ _)⟩)
      rw [hheap]
      exact mem_cons_self ..
    · exact .inl (hrest hheap y hy)
  | stallMessage hstall =>
    obtain ⟨b₁, m, hdeq, rfl⟩ := stallMessage_ok hstall
    obtain ⟨m₀, rest, hheap, -, -, rfl⟩ := dequeue_ok hdeq
    exact ⟨hmem hheap (hop _ _ hheap), fun y hy => .inl (hrest hheap y hy)⟩
  | reanalyzeMessages hre =>
    obtain ⟨l, -, rfl⟩ := reanalyzeMessages_ok hre
    refine ⟨mem_restore.mpr (.inr h.mem), fun y hy => ?_⟩
    exact (mem_restore.mp hy).symm.imp id fun hy => .inl (mem_rekeyed hy).2.1
  | reanalyzeAllMessages hre =>
    rw [reanalyzeAllMessages_ok hre]
    refine ⟨mem_restore.mpr (.inr h.mem), fun y hy => ?_⟩
    exact (mem_restore.mp hy).symm.imp id fun hy => .inl (mem_rekeyed hy).2.1

/-- The messages behind `x` leave after it, and so do those that enter later. -/
theorem Behind.leavesFirst (hb : b.WellFormed)
    (h : b.Behind x D) (hlo : lo < x.msgCounter) (hhi : x.msgCounter ≤ hi) {ops : List BufferOp}
    {out : List Message} (hrun : Run (Untouched lo hi) b ops out b') :
    ∀ y ∈ out, D y.msgCounter ∨
        (x.msgCounter < y.msgCounter ∧ x.lastEnqueueTime ≤ y.lastEnqueueTime) →
      [x.msgCounter, y.msgCounter].Sublist (out.map Message.msgCounter) := by
  induction hrun with
  | nil => exact fun _ hy => nomatch hy
  | @cons b b₁ b' op ops res out hop hexec hrest ih =>
    have hb₁ := (trades_exec hb hexec).wellFormed
    by_cases hres : res.dequeuedMessages = []
    · rw [hres]
      exact ih hb₁ (h.exec hb hlo hhi hop hexec hres)
    · intro y hy hlater
      -- a dequeue gives the first message of the heap
      cases done_of_exec hexec with
      | @dequeue t decrement m b₁ hdeq =>
        obtain ⟨m₀, rest, hheap, -, rfl, rfl⟩ := dequeue_ok hdeq
        have hx := h.mem
        have hsorted := hb.sorted
        rw [hheap] at hx hsorted
        rcases mem_cons.mp hx with rfl | hx
        · -- it is `x` itself, before everything else
          rcases mem_cons.mp hy with rfl | hy
          · exfalso
            rcases hlater with hD | hlt
            · exact h.later x h.mem hD (Message.le_iff.mpr (.inr ⟨rfl, le_refl _⟩))
            · exact absurd hlt.1 (Nat.lt_irrefl _)
          · exact List.Sublist.cons_cons _ (singleton_sublist.mpr (mem_map_of_mem hy))
        · -- another message leaves, which is not one of `D` because it is before `x`
          have hle := rel_of_pairwise_cons hsorted hx
          rcases mem_cons.mp hy with rfl | hy
          · exfalso
            rcases hlater with hD | hlt
            · exact h.later m₀ (hheap ▸ mem_cons_self ..) hD hle
            · rw [Message.le_iff] at hle
              dsimp only at hlt
              omega
          · refine (ih hb₁ (h.update (le_refl _) ⟨hx, fun z hz => .inl ?_⟩) y hy hlater).cons _
            rw [hheap]
            exact mem_cons_of_mem _ hz
      | _ => exact absurd rfl hres

theorem drain (lo hi : Nat) (front : List Message) :
    ∀ {b : MessageBuffer} {rest : List Message}, b.prioHeap = front ++ rest →
      ∃ ops out b', Run (Untouched lo hi) b ops out b' ∧
        out.map Message.msgCounter = front.map Message.msgCounter := by
  induction front with
  | nil => exact fun {b _} _ => ⟨[], [], b, .nil b, rfl⟩
  | cons m front ih =>
    intro b rest hheap
    obtain ⟨b₁, m₁, hdeq⟩ := dequeue_of_ready hheap (le_refl m.lastEnqueueTime)
    obtain ⟨m₀, rest₀, hheap₀, -, hm₁, hb₁⟩ := dequeue_ok hdeq
    obtain ⟨rfl, rfl⟩ := cons_eq_cons.mp (hheap₀.symm.trans hheap)
    have hheap₁ : b₁.prioHeap = front ++ rest := by rw [hb₁]; rfl
    obtain ⟨ops, out, b', hrun, hout⟩ := ih hheap₁
    have hexec : (BufferOp.dequeue m₀.lastEnqueueTime true).exec b = .ok (b₁, .dequeued m₁) := by
      rw [BufferOp.exec, hdeq]
      rfl
    refine ⟨.dequeue m₀.lastEnqueueTime true :: ops, _, b', .cons trivial hexec hrun, ?_⟩
    show m₁.msgCounter :: out.map Message.msgCounter = _
    rw [hout, hm₁, map_cons]

theorem exists_not_leavesFirst (hb : b.WellFormed) (hx : x ∈ b.prioHeap) (hy : y ∈ b.prioHeap)
    (hle : y.le x = true) (hne : y.msgCounter ≠ x.msgCounter) :
    ∃ ops out b', Run (Untouched lo hi) b ops out b' ∧
      ¬ LeavesFirst out x.msgCounter y.msgCounter := by
  obtain ⟨front, rest, hheap⟩ := append_of_mem hy
  have hheap' : b.prioHeap = (front ++ [y]) ++ rest := by rw [hheap, append_assoc]; rfl
  obtain ⟨ops, out, b', hrun, hout⟩ := drain lo hi (front ++ [y]) hheap'
  refine ⟨ops, out, b', hrun, fun hfirst => ?_⟩
  unfold LeavesFirst at hfirst
  rw [hout] at hfirst
  have hsub := hfirst (by simp)
  -- `x` would be among the messages up to `y`, which are all before it
  have hmem : x.msgCounter ∈ (front ++ [y]).map Message.msgCounter :=
    hsub.subset (mem_cons_self ..)
  obtain ⟨z, hz, hcounter⟩ := mem_map.mp hmem
  have hzx : z = x := by
    have hinj := inj_on_of_nodup_map hb.nodup
    refine hinj ?_ (mem_append_left _ hx) hcounter
    rw [messages, hheap']
    exact mem_append_left _ (mem_append_left _ hz)
  subst hzx
  have hsorted := hb.sorted
  rw [hheap', pairwise_append, pairwise_append] at hsorted
  rcases mem_append.mp hz with hz | hz
  · have hge := hsorted.1.2.2 z hz y (mem_singleton_self y)
    rw [Message.le_iff] at hle hge
    omega
  · exact hne (congrArg _ (mem_singleton.mp hz).symm)

theorem getElem?_rekeyed (t : Nat) (l : List Message) : ∀ (c i : Nat), (rekeyed t c l)[i]? =
    l[i]?.map fun m => { m with lastEnqueueTime := t, msgCounter := c + 1 + i } := by
  induction l with
  | nil => exact fun c i => rfl
  | cons m l ih =>
    intro c i
    cases i with
    | zero => rfl
    | succ i =>
      rw [rekeyed, getElem?_cons_succ, getElem?_cons_succ, ih, Nat.add_right_comm c 1 1,
        Nat.add_assoc (c + 1), Nat.add_comm 1 i]

theorem exec_restored (hexec : op.exec b = .ok (b', res)) (hne : op.restored b ≠ []) :
    b'.prioHeap = (b.restore ((op.restored b).map Prod.snd) op.time).prioHeap ∧
      b'.msgCounter = b.msgCounter + (op.restored b).length := by
  cases done_of_exec hexec with
  | reanalyzeMessages hre =>
    obtain ⟨l, hl, rfl⟩ := reanalyzeMessages_ok hre
    simp [BufferOp.restored, hl, BufferOp.time, restore, map_map, Function.comp_def]
  | reanalyzeAllMessages hre =>
    rw [reanalyzeAllMessages_ok hre]
    simp [BufferOp.restored, BufferOp.time, restore, stalled, map_flatMap, map_map,
      Function.comp_def, length_flatMap]
  | _ => exact absurd rfl hne

section Reanalysis

variable {op : BufferOp} {res : BufferResult} (hexec : op.exec b = .ok (b', res))
include hexec

variable {i addr : Nat} {m : Message}

theorem restored_mem (hi : (op.restored b)[i]? = some (addr, m)) :
    ∃ x ∈ b'.prioHeap, x.lastEnqueueTime = op.time ∧ x.msgCounter = b.msgCounter + 1 + i ∧
      b.msgCounter + 1 + i ≤ b'.msgCounter := by
  have hlt := (List.getElem?_eq_some_iff.mp hi).1
  obtain ⟨hheap, hcounter⟩ := exec_restored hexec (ne_nil_of_mem (mem_of_getElem? hi))
  refine ⟨{ m with lastEnqueueTime := op.time, msgCounter := b.msgCounter + 1 + i }, ?_, rfl, rfl,
    by omega⟩
  rw [hheap, mem_restore]
  apply Or.inl
  apply mem_of_getElem? (i := i)
  rw [getElem?_rekeyed, getElem?_map, hi]
  rfl

theorem mem_after_restored (hne : op.restored b ≠ []) {y : Message} (hy : y ∈ b'.prioHeap) :
    (y.lastEnqueueTime = op.time ∧ b.msgCounter < y.msgCounter) ∨ y ∈ b.prioHeap := by
  obtain ⟨hheap, -⟩ := exec_restored hexec hne
  rw [hheap, mem_restore] at hy
  exact hy.imp (fun h => ⟨(mem_rekeyed h).1, (mem_rekeyed h).2.1⟩) id

variable (hb : b.WellFormed)
include hb

variable {ops : List BufferOp} {out : List Message} {b'' : MessageBuffer}

theorem restored_leavesFirst (hi : (op.restored b)[i]? = some (addr, m))
    (hrun : Run (Untouched b.msgCounter b'.msgCounter) b' ops out b'') :
    ∀ y ∈ out, b.msgCounter + 1 + i < y.msgCounter → (b'.msgCounter < y.msgCounter →
        op.time ≤ y.lastEnqueueTime) →
      [b.msgCounter + 1 + i, y.msgCounter].Sublist (out.map Message.msgCounter) := by
  obtain ⟨x, hx, htime, hcounter, hle⟩ := restored_mem hexec hi
  have hne : op.restored b ≠ [] := ne_nil_of_mem (mem_of_getElem? hi)
  have hbehind : b'.Behind x fun d => x.msgCounter < d ∧ d ≤ b'.msgCounter := by
    refine ⟨hx, fun y hy hD => ?_, fun d hd => hd.2⟩
    rw [Message.le_iff]
    rcases mem_after_restored hexec hne hy with ⟨hy, -⟩ | hy
    · omega
    · have := hb.counter_le y (mem_append_left _ hy)
      omega
  intro y hy hlt hlater
  rw [← hcounter] at hlt ⊢
  refine hbehind.leavesFirst (trades_exec hb hexec).wellFormed (by omega) (by omega) hrun y hy ?_
  rcases Nat.lt_or_ge b'.msgCounter y.msgCounter with hnew | hold
  · exact .inr ⟨hlt, htime.trans_le (hlater hnew)⟩
  · exact .inl ⟨hlt, hold⟩

theorem restored_leavesFirst_heap (hi : (op.restored b)[i]? = some (addr, m))
    (hrun : Run (Untouched b.msgCounter b'.msgCounter) b' ops out b'') {y : Message}
    (hy : y ∈ b.prioHeap) (htimey : op.time < y.lastEnqueueTime) :
    LeavesFirst out (b.msgCounter + 1 + i) y.msgCounter := by
  obtain ⟨x, hx, htime, hcounter, hle⟩ := restored_mem hexec hi
  have hne : op.restored b ≠ [] := ne_nil_of_mem (mem_of_getElem? hi)
  have hbehind : b'.Behind x (· = y.msgCounter) := by
    have hyc := hb.counter_le y (mem_append_left _ hy)
    refine ⟨hx, fun z hz hD => ?_, fun d hd => ?_⟩
    · rcases mem_after_restored hexec hne hz with ⟨-, hz⟩ | hz
      · omega
      · have hzy : z = y := inj_on_of_nodup_map hb.nodup (mem_append_left _ hz)
          (mem_append_left _ hy) hD
        rw [hzy, Message.le_iff]
        omega
    · omega
  intro hmem
  obtain ⟨z, hz, hzy⟩ := mem_map.mp hmem
  rw [← hcounter, ← hzy]
  exact hbehind.leavesFirst (trades_exec hb hexec).wellFormed (by omega) (by omega) hrun z hz
    (.inl hzy)

end Reanalysis

/-- **When stalled messages keep their age**: if and only if none is put back behind a younger one,
ready in the heap or stalled on a smaller address. -/
theorem keepsAge_iff {bufferSize : Nat} {ordered randomization : Bool} {b b' : MessageBuffer}
    {g : Nat → Birth} (h : Aged bufferSize ordered randomization b g) {op : BufferOp}
    {res : BufferResult} (hexec : op.exec b = .ok (b', res)) :
    KeepsAge b g op b' ↔ ¬ Overtaken b g op := by
  have hb := h.wellFormed
  have hb' := (trades_exec hb hexec).wellFormed
  constructor
  · rintro hkeeps ⟨i, addr, m, hi, ⟨y, hy, hready, hyoung⟩ | ⟨j, hji, addr', m', haddr, hj, hyoung⟩⟩
    · -- the younger message stays before the one put back, and can be dequeued first
      obtain ⟨x, hx, htime, hcounter, -⟩ := restored_mem hexec hi
      have hyc := hb.counter_le y (mem_append_left _ hy)
      have hy' : y ∈ b'.prioHeap := by
        rw [(exec_restored hexec (ne_nil_of_mem (mem_of_getElem? hi))).1, mem_restore]
        exact .inr hy
      have hle : y.le x = true := Message.le_iff.mpr (by omega)
      obtain ⟨ops, out, b'', hrun, hnot⟩ := exists_not_leavesFirst hb' hx hy' hle (by omega)
      rw [hcounter] at hnot
      exact hnot ((hkeeps ops out b'' hrun i addr m hi).2.2.1 y hy hyoung)
    · -- both are put back, the younger one first
      obtain ⟨x, hx, htime, hcounter, -⟩ := restored_mem hexec hi
      obtain ⟨y, hy, htimey, hcountery, -⟩ := restored_mem hexec hj
      have hle : y.le x = true := Message.le_iff.mpr (by omega)
      obtain ⟨ops, out, b'', hrun, hnot⟩ := exists_not_leavesFirst hb' hx hy hle (by omega)
      rw [hcounter, hcountery] at hnot
      exact hnot ((hkeeps ops out b'' hrun i addr m hi).2.1 j addr' m' haddr hj hyoung)
  · intro hnot ops out b'' hrun i addr m hi
    have hfirst := restored_leavesFirst hexec hb hi hrun
    -- those put back after the message
    have hafter : ∀ j, i < j → (∃ e, (op.restored b)[j]? = some e) →
        LeavesFirst out (b.msgCounter + 1 + i) (b.msgCounter + 1 + j) := by
      rintro j hij ⟨e, hj⟩ hmem
      obtain ⟨y, hy, hyj⟩ := mem_map.mp hmem
      obtain ⟨-, -, -, -, hle⟩ := restored_mem hexec hj
      rw [← hyj]
      exact hfirst y hy (by omega) (fun hlt => by omega)
    refine ⟨fun j m' hij hj => hafter j hij ⟨_, hj⟩, fun j addr' m' haddr hj hyoung => ?_,
      fun y hy hyoung => ?_, fun y hy hnew htime _ => ?_⟩
    · rcases Nat.lt_trichotomy i j with hij | rfl | hji
      · exact hafter j hij ⟨_, hj⟩
      · rw [hi] at hj
        exact absurd (congrArg Prod.fst (Option.some.inj hj)).symm haddr
      · exact absurd ⟨i, addr, m, hi, .inr ⟨j, hji, addr', m', haddr, hj, hyoung⟩⟩ hnot
    · apply restored_leavesFirst_heap hexec hb hi hrun hy
      by_contra hready
      exact hnot ⟨i, addr, m, hi, .inl ⟨y, hy, not_lt.mp hready, hyoung⟩⟩
    · obtain ⟨-, -, -, -, hle⟩ := restored_mem hexec hi
      exact hfirst y hy (by omega) fun _ => htime

def stallOne : List BufferOp :=
  [.enqueue ⟨false, false⟩ (sample 0) 0 1 0, .stallMessage 0 1]

/-- Two stalled messages go back before a younger one that is not ready yet. -/
theorem keepsAge_iff_stallOne : ∃ b g b', Aged 0 false false b g ∧
    (BufferOp.reanalyzeMessages 0 3).exec b = .ok (b', .moved) ∧ b.prioHeap.length = 1 ∧
    b'.prioHeap.length = 3 ∧ KeepsAge b g (.reanalyzeMessages 0 3) b' := by
  have haged : Aged 0 false false _ _ :=
    Aged.new.trace (stallOne ++ [.enqueue ⟨false, false⟩ (sample 1) 1 1 0, .stallMessage 0 2,
      .enqueue ⟨false, false⟩ (sample 2) 2 5 0]) rfl
  refine ⟨_, _, _, haged, rfl, rfl, rfl, (keepsAge_iff haged rfl).mpr ?_⟩
  rintro ⟨i, addr, m, hi, ⟨y, hy, hready, -⟩ | ⟨j, hji, addr', m', hne, hj, -⟩⟩
  · -- the younger message arrives in cycle `7`
    obtain rfl := mem_singleton.mp hy
    exact absurd hready (by decide)
  · -- both messages are put back for address `0`
    have hlt := (List.getElem?_eq_some_iff.mp hi).1
    obtain rfl : i = 1 := le_antisymm (Nat.lt_succ_iff.mp hlt) (Nat.succ_le_of_lt (Nat.zero_lt_of_lt hji))
    obtain rfl : j = 0 := Nat.lt_one_iff.mp hji
    cases hi
    cases hj
    exact hne rfl

/-- **A younger message overtakes a stalled one** that is put back in the cycle in which it arrives.
-/
theorem stalled_overtaken : ∃ b g b', Aged 0 false false b g ∧
    (BufferOp.reanalyzeMessages 0 2).exec b = .ok (b', .moved) ∧
    ¬ KeepsAge b g (.reanalyzeMessages 0 2) b' := by
  have haged : Aged 0 false false _ _ :=
    Aged.new.trace (stallOne ++ [.enqueue ⟨false, false⟩ (sample 1) 1 1 0]) rfl
  refine ⟨_, _, _, haged, rfl, fun hkeeps => ?_⟩
  have hfirst := (hkeeps [.dequeue 2 true] _ _ (.cons trivial rfl (.nil _)) 0 0 _ rfl).2.2.1 _
    (mem_cons_self ..) ⟨by decide, by decide⟩
  exact absurd (hfirst (by decide)) (by decide)

end MessageBuffer

end NocSwap
