import NocSwap.Protocol.MI.Correct.Refine

/-!
# MI_example: the invariant of the system

Each line of the system satisfies the invariant of its protocol, for some coherent value.
-/

namespace NocSwap.MIExample

open Function List MsgChannel Option

open Ruby (DataBlock Callback)

variable {B : Nat}

namespace System

variable {P : Params} {s s' : System B} {l : Label B}

section Messages

variable {i d k x : Nat}

theorem forall_setL1 {p : L1Line B → Prop} {line : L1Line B} (h : ∀ j y, p (s.l1 j y))
    (hl : p line) (j y : Nat) : p ((s.setL1 i x line).l1 j y) := by
  unfold setL1
  rcases eq_or_ne j i with rfl | hj
  · rcases eq_or_ne y x with rfl | hy
    · simpa using hl
    · simpa [update_of_ne hy] using h j y
  · simpa [update_of_ne hj] using h j y

theorem forall_setDir {p : DirLine B → Prop} {line : DirLine B} (h : ∀ y, p (s.dir y))
    (hl : p line) (y : Nat) : p ((s.setDir x line).dir y) := by
  unfold setDir
  rcases eq_or_ne y x with rfl | hy
  · simpa using hl
  · simpa [update_of_ne hy] using h y

theorem forall_setDMA {p : DMALine B → Prop} {line : DMALine B} (h : ∀ j y, p (s.dma j y))
    (hl : p line) (j y : Nat) : p ((s.setDMA k x line).dma j y) := by
  unfold setDMA
  rcases eq_or_ne j k with rfl | hj
  · rcases eq_or_ne y x with rfl | hy
    · simpa using hl
    · simpa [update_of_ne hy] using h j y
  · simpa [update_of_ne hj] using h j y

theorem forall_mem_send {μ : Type} {p : μ → Prop} {c : MsgChannel μ} {ms : List μ}
    (h : ∀ m ∈ c.content, p m) (hms : ∀ m ∈ ms, p m) : ∀ m ∈ (c.send ms).content, p m := by
  intro m hm
  rw [content_send, Multiset.mem_add, Multiset.mem_coe] at hm
  exact hm.elim (h m) (hms m)

theorem forall_mem_pop {μ : Type} {p : μ → Prop} {q : μ → Bool} {c : MsgChannel μ}
    (h : ∀ m ∈ c.content, p m) : ∀ m ∈ (c.pop q).content, p m :=
  fun m hm => h m (mem_content_of_mem_pop hm)

variable {w : L1Work B}

theorem MsgsOk.applyL1 (h : s.MsgsOk P) (hreq : ∀ m ∈ w.requests, m.IsRequest P)
    (hresp : ∀ m ∈ w.responses, ∃ j, m.destination = .L1Cache j) :
    (s.applyL1 i x w).MsgsOk P where
  requests := forall_mem_send h.requests hreq
  forwards := by
    simp only [System.applyL1]
    split
    · exact forall_mem_pop h.forwards
    · exact h.forwards
  responses := by
    refine forall_mem_send ?_ hresp
    split
    · exact forall_mem_pop h.responses
    · exact h.responses
  dmaRequests := h.dmaRequests
  memoryRequests := h.memoryRequests
  memoryResponses := h.memoryResponses

theorem MsgsOk.applyDir (h : s.MsgsOk P) {w : DirWork B} (hfwd : ∀ m ∈ w.forwards, m.IsForward P)
    (hresp : ∀ m ∈ w.responses, ∃ j, m.destination = .L1Cache j)
    (hmem : ∀ r ∈ w.memoryRequests, r.directory = P.home r.addr) :
    (s.applyDir d x w).MsgsOk P where
  requests := by
    simp only [System.applyDir]
    split
    · exact forall_mem_pop h.requests
    · split
      · rw [content_recycle]
        exact h.requests
      · exact h.requests
  forwards := forall_mem_send h.forwards hfwd
  responses := forall_mem_send h.responses hresp
  dmaRequests := by
    simp only [System.applyDir]
    split
    · exact forall_mem_pop h.dmaRequests
    · split
      · rw [content_recycle]
        exact h.dmaRequests
      · exact h.dmaRequests
  memoryRequests := by
    intro r hr
    simp only [System.applyDir, mem_append] at hr
    exact hr.elim (h.memoryRequests r) (hmem r)
  memoryResponses := by
    simp only [System.applyDir]
    split
    · exact forall_mem_pop h.memoryResponses
    · exact h.memoryResponses

theorem MsgsOk.applyDMA (h : s.MsgsOk P) {w : DMAWork B} (hreq : ∀ m ∈ w.requests,
      m.destination = .Directory (P.home m.lineAddress) ∧ ∃ k, m.requestor = .DMA k) :
    (s.applyDMA k x w).MsgsOk P where
  requests := h.requests
  forwards := h.forwards
  responses := h.responses
  dmaRequests := forall_mem_send h.dmaRequests hreq
  memoryRequests := h.memoryRequests
  memoryResponses := h.memoryResponses

theorem l1Step_msgs {m : L1InMsg B} {event : L1Event}
    (hw : L1Cache.Step (s.l1Context P i x m) (s.l1 i x) event w)
    (hm : event = .Fwd_GETX → ∀ f, m = .forward f → ∃ j, f.requestor = .L1Cache j) :
    (∀ m ∈ w.requests, m.IsRequest P) ∧ ∀ m ∈ w.responses, ∃ j, m.destination = .L1Cache j := by
  cases hw with
  | miss | replace => simp [RequestMsg.IsRequest, L1Cache.requestMsg, l1Context]
  | forward hf | forwardMI hf | forwardMII hf =>
    simpa [L1Cache.dataMsg] using hm rfl _ hf
  | _ => simp

theorem dirStep_msgs (hd : d = P.home x) {m : DirInMsg B} {event : DirEvent} {w : DirWork B}
    (hl : (s.dir x).Ok) (hw : Directory.Step (s.dirContext P d x m) (s.dir x) event w)
    (hr : ∀ r, m = .request r → (event = .GETX → r.type = .GETX) ∧ ∃ i, r.requestor = .L1Cache i)
    (hmem : ∀ r, m = .memory r → (s.dir x).getState = .IM ∨ (s.dir x).getState.isWriteback = true →
      ∃ i, r.originalRequestor = .L1Cache i) :
    (∀ m ∈ w.forwards, m.IsForward P) ∧ (∀ m ∈ w.responses, ∃ j, m.destination = .L1Cache j) ∧
      ∀ r ∈ w.memoryRequests, r.directory = P.home r.addr := by
  subst hd
  have howner : (s.dir x).getState = .M → ∃ o, (s.dir x).entry.owner = [.L1Cache o] := by
    intro hs
    have ho := hl.owner
    rw [← hl.getState_eq, hs] at ho
    exact ho
  cases hw with
  | fetch | writeback | writebackRead | overwrite | dmaRead | dmaWrite =>
    simp [Directory.queueMemoryRead, Directory.queueMemoryWrite, Directory.queueMemoryWritePartial,
      dirContext]
  | @forward m' o hm hs ho =>
    obtain ⟨o', ho'⟩ := howner hs
    cases ho.symm.trans ho'
    obtain ⟨ht, hi⟩ := hr m' hm
    simp [RequestMsg.IsForward, Directory.forward, dirContext, ht rfl, hi]
  | @nack m' hm =>
    obtain ⟨-, i, hi⟩ := hr m' hm
    simp [RequestMsg.IsForward, Directory.forward, dirContext, hi]
  | @data m' hm hs =>
    simpa using hmem m' hm (.inl hs)
  | @ack m' hm hs =>
    obtain ⟨i, hi⟩ := hmem m' hm (.inr (by rcases hs with hs | hs <;> rw [hs] <;> rfl))
    simp [RequestMsg.IsForward, Directory.forward, dirContext, hi]
  | @ackWrite m' t hm ht hs =>
    obtain ⟨i, hi⟩ := hmem m' hm (.inr (by rw [hs]; rfl))
    simp [RequestMsg.IsForward, Directory.forward, dirContext, hi]
  | dmaData | dmaAck | recycleRequest | recycleDMARequest => simp
  | dmaInv hev hm hs ho =>
    obtain ⟨o', ho'⟩ := howner hs
    cases ho.symm.trans ho'
    simp [RequestMsg.IsForward, Directory.forward, dirContext]

end Messages

/-- The invariant of all runs. -/
structure Inv (P : Params) (s : System B) : Prop where
  ok : s.Ok P
  line : ∀ x, ∃ v, (line x v s).Inv

theorem Inv.dirOk (h : s.Inv P) (x : Nat) (v : DataBlock B) : (System.line x v s).DirOk := by
  obtain ⟨v', hv'⟩ := h.line x
  exact hv'.dir

variable {x : Nat}

variable {m : MemoryMsg B}

theorem mem_lineMsgs_of_memory {a : LineMsg (DataBlock B)}
    (hm : m ∈ s.memoryResponses.content) (ha : lineMemoryMsg x m = some a) : a ∈ s.lineMsgs x := by
  unfold lineMsgs
  exact Multiset.mem_add.mpr (.inr ((Multiset.mem_filterMap ..).mpr ⟨m, hm, ha⟩))

theorem Inv.cache_of_memory (h : s.Inv P) (hm : m ∈ s.memoryResponses.content)
    (hs : (s.dir m.addr).getState = .IM ∨ (s.dir m.addr).getState.isWriteback = true) :
    ∃ i, m.originalRequestor = .L1Cache i := by
  have hdir := h.dirOk m.addr DataBlock.clear
  have hwait : ∀ κ, κ = .dmaFetch ∨ κ = .dmaWrite →
      LineState.memTally (s.lineMsgs m.addr) κ = 0 := by
    unfold LineState.DirOk at hdir
    rintro κ hκ
    cases hd : (s.dir m.addr).getState with
    | IM | MI | M_DRDI | M_DWRI =>
      rw [show (System.line m.addr DataBlock.clear s).dir = _ from hd] at hdir
      rcases hκ with rfl | rfl
      · exact hdir.2.2.1
      · exact hdir.2.2.2.2
    | _ =>
      rw [hd] at hs
      simp [DirState.isWriteback] at hs
  cases hr : m.originalRequestor.cache? with
  | some i => exact ⟨i, MachineID.cache?_eq_some.mp hr⟩
  | none =>
    exfalso
    cases ht : m.type with
    | MEMORY_READ =>
      have ha : lineMemoryMsg m.addr m = some (.fetched none m.dataBlk) := by
        simp [lineMemoryMsg, ht, hr]
      exact absurd (mem_lineMsgs_of_memory hm ha)
        (LineState.notMem_of_memTally (hwait .dmaFetch (.inl rfl)) Nat.one_ne_zero)
    | MEMORY_WB =>
      have ha : lineMemoryMsg m.addr m = some (.written none) := by simp [lineMemoryMsg, ht, hr]
      exact absurd (mem_lineMsgs_of_memory hm ha)
        (LineState.notMem_of_memTally (hwait .dmaWrite (.inr rfl)) Nat.one_ne_zero)

structure SameContent (s s' : System B) : Prop where
  l1 : s'.l1 = s.l1
  dir : s'.dir = s.dir
  dma : s'.dma = s.dma
  memory : s'.memory = s.memory
  memoryRequests : s'.memoryRequests = s.memoryRequests
  log : s'.log = s.log
  requests : s'.requests.content = s.requests.content
  forwards : s'.forwards.content = s.forwards.content
  responses : s'.responses.content = s.responses.content
  mandatory : s'.mandatory.content = s.mandatory.content
  dmaMandatory : s'.dmaMandatory.content = s.dmaMandatory.content
  dmaRequests : s'.dmaRequests.content = s.dmaRequests.content
  dmaResponses : s'.dmaResponses.content = s.dmaResponses.content
  memoryResponses : s'.memoryResponses.content = s.memoryResponses.content

theorem content_arrive {μ : Type} (same : μ → μ → Bool) (n : Nat) (c : MsgChannel μ) :
    (arrive P same n c).content = c.content := by
  unfold arrive
  split
  · exact content_deliver ..
  · rfl

theorem sameContent_deliver (v : VNet) (n : Nat) : SameContent s (s.deliver P v n) := by
  unfold deliver
  cases v <;> constructor <;> first | rfl | exact content_arrive .. | exact content_deliver ..

theorem sameContent_requeue (v : VNet) (n : Nat) : SameContent s (s.requeue v n) := by
  unfold requeue
  cases v <;> constructor <;> first | rfl | exact content_requeue ..

theorem SameContent.ok (h : s.Ok P) (hs : SameContent s s') : s'.Ok P := by
  refine ⟨?_, ?_, ?_, ⟨?_, ?_, ?_, ?_, ?_, ?_⟩⟩
  · rw [hs.l1]
    exact h.l1
  · rw [hs.dir]
    exact h.dir
  · rw [hs.dma]
    exact h.dma
  · rw [hs.requests]
    exact h.msgs.requests
  · rw [hs.forwards]
    exact h.msgs.forwards
  · rw [hs.responses]
    exact h.msgs.responses
  · rw [hs.dmaRequests]
    exact h.msgs.dmaRequests
  · rw [hs.memoryRequests]
    exact h.msgs.memoryRequests
  · rw [hs.memoryResponses]
    exact h.msgs.memoryResponses

theorem SameContent.line_eq (hs : SameContent s s') (x : Nat) (v : DataBlock B) :
    System.line x v s' = System.line x v s := by
  unfold System.line lineMsgs
  rw [hs.l1, hs.dir, hs.memory, hs.requests, hs.forwards, hs.responses, hs.memoryRequests,
    hs.memoryResponses]

theorem StepTo.ok (h : s.Inv P) (hs : StepTo P s l s') : s'.Ok P := by
  have hok := h.ok
  cases hs with
  | idle => exact hok
  | @makeRequest i x pkt seq hx hseq =>
    refine ⟨forall_setL1 hok.l1 ⟨(hok.l1 i x).shape, ?_⟩, hok.dir, hok.dma, { hok.msgs with }⟩
    have hblocked : seq.blocked = (s.l1 i x).sequencer.blocked := by
      rw [(Ruby.SequencerLine.of_insertRequest_ready hseq).2.2.2]
      split <;> rfl
    intro hb
    exact (hok.l1 i x).blocked (hblocked ▸ hb)
  | delayForward | delayResponse => exact SameContent.ok hok (by constructor <;> simp)
  | @forwardIn i m event w hm hb hev hw =>
    have hfwd := hok.msgs.forwards m (mem_content_of_head hm)
    have hmsgs := l1Step_msgs hw fun hev' f hf => by
      cases hf
      subst hev'
      exact hfwd.2.2.2 (L1Cache.eq_GETX_of_forwardEvent hev)
    exact ⟨forall_setL1 hok.l1 (hw.ok (hok.l1 i m.addr) fun _ => hb), hok.dir, hok.dma,
      hok.msgs.applyL1 hmsgs.1 hmsgs.2⟩
  | @responseIn i m w hm hb hw =>
    have hmsgs := l1Step_msgs hw fun hev' => by cases hev'
    exact ⟨forall_setL1 hok.l1 (hw.ok (hok.l1 i m.addr) fun _ => hb), hok.dir, hok.dma,
      hok.msgs.applyL1 hmsgs.1 hmsgs.2⟩
  | @mandatoryIn i v m event w hm hev hw =>
    have hevent := L1Cache.event_of_mandatory hev
    have hmsgs := l1Step_msgs hw fun _ f hf => by cases hf
    refine ⟨forall_setL1 hok.l1 (hw.ok (hok.l1 i m.lineAddress) fun hf => ?_), hok.dir, hok.dma,
      hok.msgs.applyL1 hmsgs.1 hmsgs.2⟩
    rcases hevent with rfl | rfl | rfl <;> exact absurd hf Bool.false_ne_true
  | @replacement i v m w hm he hav hv hw =>
    have hmsgs := l1Step_msgs hw fun hev' => by cases hev'
    exact ⟨forall_setL1 hok.l1 (hw.ok (hok.l1 i v) fun hf => absurd hf Bool.false_ne_true), hok.dir,
      hok.dma, hok.msgs.applyL1 hmsgs.1 hmsgs.2⟩
  | @requestIn d m event w hm hev hw =>
    obtain ⟨-, hdest, i, hi, -⟩ := hok.msgs.requests m (mem_content_of_head hm)
    have hport : m.destination = .Directory d := by
      simpa [requestPort] using pos_of_head hm
    have hd : d = P.home m.addr := by
      rw [hport] at hdest
      exact MachineID.Directory.inj hdest
    have hmsgs := dirStep_msgs hd (hok.dir m.addr) hw (fun r hr => ?_) fun r hr => by cases hr
    · refine ⟨hok.l1, forall_setDir hok.dir (hw.ok (hok.dir m.addr) fun m' hm' => ?_), hok.dma,
        hok.msgs.applyDir hmsgs.1 hmsgs.2.1 hmsgs.2.2⟩
      cases hm'
      exact ⟨i, hi⟩
    · cases hr
      refine ⟨fun hev' => ?_, i, hi⟩
      subst hev'
      exact Directory.eq_GETX_of_requestEvent hev
  | @dmaRequestIn d m w hm hw =>
    obtain ⟨hdest, -⟩ := hok.msgs.dmaRequests m (mem_content_of_head hm)
    have hport : m.destination = .Directory d := by
      simpa [dmaRequestPort] using pos_of_head hm
    have hd : d = P.home m.lineAddress := by
      rw [hport] at hdest
      exact MachineID.Directory.inj hdest
    have hmsgs := dirStep_msgs hd (hok.dir m.lineAddress) hw (fun r hr => by cases hr)
      fun r hr => by cases hr
    exact ⟨hok.l1, forall_setDir hok.dir (hw.ok (hok.dir m.lineAddress) fun m' hm' => by cases hm'),
      hok.dma, hok.msgs.applyDir hmsgs.1 hmsgs.2.1 hmsgs.2.2⟩
  | @memoryIn d m w hm hw =>
    have hmem := mem_content_of_head hm
    have hd : d = P.home m.addr := by
      have hport : m.directory = d := by simpa [memoryPort] using pos_of_head hm
      rw [← hport]
      exact hok.msgs.memoryResponses m hmem
    have hmsgs := dirStep_msgs hd (hok.dir m.addr) hw (fun r hr => by cases hr) fun r hr hs => by
      cases hr
      exact h.cache_of_memory hmem hs
    exact ⟨hok.l1, forall_setDir hok.dir (hw.ok (hok.dir m.addr) fun m' hm' => by cases hm'),
      hok.dma, hok.msgs.applyDir hmsgs.1 hmsgs.2.1 hmsgs.2.2⟩
  | @makeDMARequest k x pkt hx hr =>
    refine ⟨hok.l1, hok.dir, forall_setDMA hok.dma ⟨(hok.dma k x).tbe, fun r hr => ?_⟩,
      { hok.msgs with }⟩
    cases hr
    exact ⟨rfl, rfl⟩
  | @dmaMandatoryIn k m w hm hw =>
    refine ⟨hok.l1, hok.dir, forall_setDMA hok.dma (hw.ok (hok.dma k m.lineAddress)),
      hok.msgs.applyDMA fun r hr => ?_⟩
    obtain ⟨type, m', hm', rfl⟩ := hw.requests r hr
    cases hm'
    exact ⟨rfl, k, rfl⟩
  | @dmaResponseIn k m w hm hw =>
    refine ⟨hok.l1, hok.dir, forall_setDMA hok.dma (hw.ok (hok.dma k m.lineAddress)),
      hok.msgs.applyDMA fun r hr => ?_⟩
    obtain ⟨type, m', hm', -⟩ := hw.requests r hr
    cases hm'
  | deliver v n => exact (sameContent_deliver v n).ok hok
  | requeue v n => exact (sameContent_requeue v n).ok hok
  | @serveRead n r hr hw | @serveWrite n r data hr hw =>
    have hmem := hok.msgs.memoryRequests r (mem_of_getElem? hr)
    exact ⟨hok.l1, hok.dir, hok.dma, { hok.msgs with
      memoryRequests := fun r' hr' => hok.msgs.memoryRequests r' (mem_of_mem_eraseIdx hr')
      memoryResponses := forall_mem_send hok.msgs.memoryResponses (by simpa using hmem) }⟩

def callbacksValue (x : Nat) (v : DataBlock B) (es : List (LogEntry B)) : DataBlock B :=
  es.foldl (fun v e =>
    match e with
    | .callback _ y cb => if y = x then cb.after else v
    | _ => v) v

variable {i : Nat}

theorem callbacksValue_map (v : DataBlock B) (cbs : List (Callback B)) :
    callbacksValue x v (cbs.map (.callback i x)) = callbackValue v cbs := by
  unfold callbacksValue callbackValue
  rw [foldl_map]
  simp

variable {y : Nat}

theorem callbacksValue_map_of_ne (hy : y ≠ x) (v : DataBlock B)
    (cbs : List (Callback B)) : callbacksValue y v (cbs.map (.callback i x)) = v := by
  unfold callbacksValue
  rw [foldl_map]
  induction cbs with
  | nil => rfl
  | cons cb cbs ih => simp [hy.symm]

theorem callbacksValue_of_forall (v : DataBlock B) {es : List (LogEntry B)}
    (h : ∀ e ∈ es, ∀ i y cb, e ≠ .callback i y cb) : callbacksValue x v es = v := by
  induction es generalizing v with
  | nil => rfl
  | cons e es ih =>
    have htail := ih v fun e' he' => h e' (mem_cons_of_mem _ he')
    cases e with
    | callback i y cb => exact absurd rfl (h _ (mem_cons_self ..) i y cb)
    | _ => exact htail

/-- What a step of the system is for one line: a step of its protocol with the change of the value.
-/
def Refines (x : Nat) (v : DataBlock B) (s s' : System B) : Prop :=
  ∃ v' es, s'.log = s.log ++ es ∧ LineState.Step (System.line x v s) (System.line x v' s') ∧
    (v' = callbacksValue x v es ∨ s'.DMAWritePending x)

variable {v : DataBlock B}

theorem refines_of_line_eq (es : List (LogEntry B))
    (hlog : s'.log = s.log ++ es) (hv : callbacksValue x v es = v)
    (hline : System.line x v s' = System.line x v s) : Refines x v s s' := by
  refine ⟨v, es, hlog, ?_, .inl hv.symm⟩
  rw [hline]
  exact .idle

theorem refines_applyL1 {m : L1InMsg B} {event : L1Event}
    {w : L1Work B} (hw : L1Cache.Step (s.l1Context P i x m) (s.l1 i x) event w)
    (hf : event.isForward = true → ∃ m, s.forwards.head (forwardPort i) = some m ∧ m.addr = x)
    (hr : event = .Data → ∃ m, s.responses.head (responsePort i) = some m ∧ m.addr = x)
    (hx : LineState.Step (System.line x v s)
      (System.line x (callbackValue v w.callbacks) (s.applyL1 i x w))) :
    Refines y v s (s.applyL1 i x w) := by
  rcases eq_or_ne y x with rfl | hy
  · exact ⟨_, _, rfl, hx, .inl (callbacksValue_map ..).symm⟩
  · exact refines_of_line_eq _ rfl (callbacksValue_map_of_ne hy ..)
      (applyL1_line_of_ne hy hw hf hr)

theorem refines_applyDir {d : Nat} {m : DirInMsg B} {event : DirEvent}
    {w : DirWork B} (hw : Directory.Step (s.dirContext P d x m) (s.dir x) event w)
    (hr : .requestQueue_in ∈ w.dequeued →
      ∃ m, s.requests.head (requestPort d) = some m ∧ m.addr = x)
    (hm : .memQueue_in ∈ w.dequeued →
      ∃ m, s.memoryResponses.head (memoryPort d) = some m ∧ m.addr = x)
    (hx : ∃ v', LineState.Step (System.line x v s) (System.line x v' (s.applyDir d x w)) ∧
      (v' = v ∨ (s.applyDir d x w).DMAWritePending x)) :
    Refines y v s (s.applyDir d x w) := by
  have hlog : ∀ z, callbacksValue z v ((w.dmaResponses.filter fun m => m.type = .DATA).map
      fun m => .dmaRead x m.dataBlk) = v := by
    intro z
    refine callbacksValue_of_forall v fun e he i y cb heq => ?_
    subst heq
    simp at he
  rcases eq_or_ne y x with rfl | hy
  · obtain ⟨v', hstep, hv'⟩ := hx
    refine ⟨v', _, rfl, hstep, ?_⟩
    rw [hlog]
    exact hv'
  · refine refines_of_line_eq _ rfl (hlog y) (applyDir_line_of_ne hy hw hr hm)

theorem refines_applyDMA {k : Nat} {w : DMAWork B} : Refines y v s (s.applyDMA k x w) := by
  refine refines_of_line_eq _ rfl (callbacksValue_of_forall v fun e he i y cb heq => ?_) rfl
  subst heq
  simp at he

variable {n : Nat} {r : MemoryRequest}

theorem lineMsgs_eraseIdx (hr : s.memoryRequests[n]? = some r) :
    s.lineMsgs y = ((lineMemoryRequest (B := B) y r).toList : Multiset (LineMsg (DataBlock B))) +
      { s with memoryRequests := s.memoryRequests.eraseIdx n }.lineMsgs y := by
  have hsum : (s.memoryRequests : Multiset MemoryRequest).filterMap (lineMemoryRequest (B := B) y) =
      ((lineMemoryRequest (B := B) y r).toList : Multiset (LineMsg (DataBlock B))) +
        (s.memoryRequests.eraseIdx n : Multiset MemoryRequest).filterMap (lineMemoryRequest y) := by
    rw [coe_eq_add_eraseIdx hr, Multiset.filterMap_add]
    congr 1
  unfold lineMsgs
  rw [hsum]
  abel

theorem lineMsgs_send_memory (m : MemoryMsg B) :
    { s with memoryResponses := s.memoryResponses.send [m] }.lineMsgs y =
      ((lineMemoryMsg y m).toList : Multiset (LineMsg (DataBlock B))) + s.lineMsgs y := by
  have hone : Multiset.filterMap (lineMemoryMsg y) {m} =
      ((lineMemoryMsg y m).toList : Multiset (LineMsg (DataBlock B))) := by
    cases ha : lineMemoryMsg y m with
    | none | some a => simp [← Multiset.coe_singleton, ha]
  simp only [lineMsgs, content_send, Multiset.filterMap_add, Multiset.coe_singleton, hone]
  abel

theorem refines_serveRead (hr : s.memoryRequests[n]? = some r) (hw : r.write = none) :
    Refines y v s { s with
      memoryRequests := s.memoryRequests.eraseIdx n
      memoryResponses := s.memoryResponses.send
        [⟨r.directory, r.addr, .MEMORY_READ, r.originalRequestor, s.memory r.addr⟩] } := by
  have hpop := lineMsgs_eraseIdx (y := y) hr
  have hsend := lineMsgs_send_memory (y := y)
    (s := { s with memoryRequests := s.memoryRequests.eraseIdx n })
    ⟨r.directory, r.addr, .MEMORY_READ, r.originalRequestor, s.memory r.addr⟩
  rcases eq_or_ne y r.addr with rfl | hy
  · simp only [lineMemoryRequest, lineMemoryMsg, hw, if_pos, toList_some,
      Multiset.coe_singleton, Multiset.singleton_add] at hpop hsend
    refine ⟨v, [], (append_nil _).symm, .dir ?_, .inl rfl⟩
    have hmove := LineState.DirMove.serveFetch (s := System.line r.addr v s) hpop
    unfold System.line at hmove ⊢
    rw [hsend]
    exact hmove
  · refine refines_of_line_eq [] (append_nil _).symm rfl ?_
    rw [lineMemoryRequest_of_ne hy.symm] at hpop
    rw [lineMemoryMsg_of_ne hy.symm] at hsend
    unfold System.line
    rw [hpop, hsend]

theorem refines_serveWrite {data : List UInt8} (hr : s.memoryRequests[n]? = some r)
    (hw : r.write = some data) {e : LogEntry B} (he : ∀ i y cb, e ≠ .callback i y cb) :
    Refines y v s { s with
      memoryRequests := s.memoryRequests.eraseIdx n
      memory := update s.memory r.addr ((s.memory r.addr).setData data 0)
      memoryResponses := s.memoryResponses.send
        [⟨r.directory, r.addr, .MEMORY_WB, r.originalRequestor, DataBlock.clear⟩]
      log := s.log ++ [e] } := by
  have hlog : ∀ z, callbacksValue z v [e] = v := fun z =>
    callbacksValue_of_forall v fun e' he' => mem_singleton.mp he' ▸ he
  have hpop := lineMsgs_eraseIdx (y := y) hr
  have hsend := lineMsgs_send_memory (y := y)
    (s := { s with memoryRequests := s.memoryRequests.eraseIdx n })
    ⟨r.directory, r.addr, .MEMORY_WB, r.originalRequestor, DataBlock.clear⟩
  rcases eq_or_ne y r.addr with rfl | hy
  · simp only [lineMemoryRequest, lineMemoryMsg, hw, if_pos, toList_some,
      Multiset.coe_singleton, Multiset.singleton_add] at hpop hsend
    refine ⟨v, [e], rfl, .dir ?_, .inl (hlog _).symm⟩
    have hmove := LineState.DirMove.serveWrite (s := System.line r.addr v s) hpop
    rw [← hsend] at hmove
    unfold System.line at hmove ⊢
    simp only [update_self]
    exact hmove
  · refine refines_of_line_eq _ rfl (hlog y) ?_
    rw [lineMemoryRequest_of_ne hy.symm] at hpop
    rw [lineMemoryMsg_of_ne hy.symm] at hsend
    unfold System.line
    simp only [update_of_ne hy]
    rw [hpop, ← hsend]
    rfl

theorem StepTo.refines (h : s.Inv P) (hs : StepTo P s l s') (y : Nat) (v : DataBlock B) :
    Refines y v s s' := by
  have hok := h.ok
  have hsame : ∀ s', SameContent s s' → Refines y v s s' := fun s' hs' =>
    refines_of_line_eq [] (by simp [hs'.log]) rfl (hs'.line_eq y v)
  cases hs with
  | idle => exact hsame s (by constructor <;> rfl)
  | @makeRequest i x pkt seq hx hseq =>
    refine refines_of_line_eq [] (by simp [setL1]) rfl ?_
    unfold System.line
    congr 1
    funext k
    rcases eq_or_ne k i with rfl | hki
    · rcases eq_or_ne y x with rfl | hyx
      · simp [setL1, L1Line.abs, L1Line.getState, L1Line.entryData, L1Line.tbeData]
      · simp [setL1, update_of_ne hyx]
    · simp [setL1, update_of_ne hki]
  | delayForward | delayResponse => exact hsame _ (by constructor <;> simp)
  | @forwardIn i m event w hm hb hev hw =>
    refine refines_applyL1 hw (fun _ => ⟨m, hm, rfl⟩) (fun hd => ?_) ?_
    · subst hd
      exact absurd (L1Cache.isForward_of_forwardEvent hev) Bool.false_ne_true
    · rw [hw.callbacks_of_isForward (L1Cache.isForward_of_forwardEvent hev)]
      exact forwardIn_line hok hm hev hw
  | @responseIn i m w hm hb hw =>
    refine refines_applyL1 hw (fun hf => absurd hf Bool.false_ne_true) (fun _ => ⟨m, hm, rfl⟩) ?_
    exact responseIn_line hm hw
  | @mandatoryIn i v m event w hm hev hw =>
    have hevent := L1Cache.event_of_mandatory hev
    refine refines_applyL1 hw (fun hf => ?_) (fun hd => ?_) (mandatoryIn_line hevent hw)
    · rcases hevent with rfl | rfl | rfl <;> exact absurd hf Bool.false_ne_true
    · rcases hevent with rfl | rfl | rfl <;> cases hd
  | @replacement i v m w hm he hav hv hw =>
    exact refines_applyL1 hw (fun hf => absurd hf Bool.false_ne_true) (fun hd => by cases hd)
      (replacement_line hw)
  | @requestIn d m event w hm hev hw =>
    refine refines_applyDir hw (fun _ => ⟨m, hm, rfl⟩) (fun hd => ?_) (requestIn_line hok hm hev hw)
    obtain ⟨m', hm'⟩ := hw.dequeued.2 hd
    cases hm'
  | @dmaRequestIn d m w hm hw =>
    obtain ⟨-, k, hk⟩ := hok.msgs.dmaRequests m (mem_content_of_head hm)
    refine refines_applyDir hw (fun hd => ?_) (fun hd => ?_)
      (dmaRequestIn_line hok (by cases m.type <;> simp [Directory.dmaRequestEvent]) (by rw [hk]; rfl)
        hw)
    · obtain ⟨m', hm'⟩ := hw.dequeued.1 hd
      cases hm'
    · obtain ⟨m', hm'⟩ := hw.dequeued.2 hd
      cases hm'
  | @memoryIn d m w hm hw =>
    refine refines_applyDir hw (fun hd => ?_) (fun _ => ⟨m, hm, rfl⟩)
      ⟨v, memoryIn_line hok (h.dirOk m.addr v) hm hw, .inl rfl⟩
    obtain ⟨m', hm'⟩ := hw.dequeued.1 hd
    cases hm'
  | @makeDMARequest k x pkt hx hr => exact refines_of_line_eq [] (by simp [setDMA]) rfl rfl
  | dmaMandatoryIn | dmaResponseIn => exact refines_applyDMA
  | deliver v n => exact hsame _ (sameContent_deliver v n)
  | requeue v n => exact hsame _ (sameContent_requeue v n)
  | serveRead hr hw => exact refines_serveRead hr hw
  | serveWrite hr hw => exact refines_serveWrite hr hw fun i y cb heq => by cases heq

theorem StepTo.inv (h : s.Inv P) (hs : StepTo P s l s') : s'.Inv P := by
  refine ⟨hs.ok h, fun x => ?_⟩
  obtain ⟨v, hv⟩ := h.line x
  obtain ⟨v', es, -, hstep, -⟩ := hs.refines h x v
  exact ⟨v', hstep.inv hv⟩

theorem inv_init (memory : Nat → DataBlock B) : (init memory).Inv P := by
  refine ⟨⟨fun _ _ => ⟨trivial, fun h => absurd h Bool.false_ne_true⟩, fun _ => ?_, fun _ _ => ?_, ?_⟩,
    fun x => ⟨memory x, LineState.inv_init _⟩⟩
  · exact ⟨fun t ht => absurd ht (not_mem_none t), rfl, rfl, rfl⟩
  · exact ⟨fun t ht => absurd ht (not_mem_none t), fun r hr => absurd hr (not_mem_none r)⟩
  · constructor <;> exact fun m hm => absurd hm (by simp [init, content])

variable {p : List (Label B) → System B → Prop} {s₀ : System B}

theorem run_induction_from (hinv₀ : s₀.Inv P) (hinit : p [] s₀)
    (hstep : ∀ ls s l s', s₀.run P ls = .ok s → s.Inv P → p ls s → StepTo P s l s' →
      s.exec P l = .ok s' → p (ls ++ [l]) s') :
    ∀ {ls s}, s₀.run P ls = .ok s → s.Inv P ∧ p ls s := by
  intro ls
  induction ls using reverseRecOn with
  | nil =>
    intro s hs
    cases hs
    exact ⟨hinv₀, hinit⟩
  | append_singleton ls l ih =>
    intro s hs
    unfold run at hs ih
    rw [foldlM_append] at hs
    obtain ⟨s₁, hs₁, hs⟩ := bind_eq_ok.mp hs
    obtain ⟨hinv, hp⟩ := ih hs₁
    have hexec : s₁.exec P l = .ok s := by simpa using hs
    have hto := (exec_outcome hinv.ok l).of_ok hexec
    exact ⟨hto.inv hinv, hstep ls s₁ l s hs₁ hinv hp hto hexec⟩

variable {memory : Nat → DataBlock B}

theorem run_induction (hinit : p [] (init memory))
    (hstep : ∀ ls s l s', (init memory).run P ls = .ok s → s.Inv P → p ls s → StepTo P s l s' →
      s.exec P l = .ok s' → p (ls ++ [l]) s') :
    ∀ {ls s}, (init memory).run P ls = .ok s → s.Inv P ∧ p ls s :=
  run_induction_from (inv_init memory) hinit hstep

variable {ls : List (Label B)}

theorem run_inv (hs : (init memory).run P ls = .ok s) : s.Inv P :=
  (run_induction (p := fun _ _ => True) trivial (fun _ _ _ _ _ _ _ _ _ => trivial) hs).1

/-- **Refinement.** Whatever the order of the steps and the traffic of other lines, a run takes a
line through states of the protocol of one line. -/
theorem run_refines_line (memory : Nat → DataBlock B) (ls : List (Label B)) (x : Nat) :
    Outcome ((init memory).run P ls) (fun s => ∃ v, Relation.ReflTransGen LineState.Step
      (LineState.init (memory x)) (line x v s)) fun _ => True := by
  refine .intro (fun s hs => ?_) fun _ _ => trivial
  refine (run_induction (p := fun _ s => ∃ v, Relation.ReflTransGen LineState.Step _ (line x v s))
    ⟨memory x, .refl⟩ ?_ hs).2
  rintro ls s l s' - hinv ⟨v, hv⟩ hto -
  obtain ⟨v', es, -, hstep, -⟩ := hto.refines hinv x v
  exact ⟨v', hv.tail hstep⟩

end System

end NocSwap.MIExample
