import NocSwap.Protocol.MI.Correct.Invariant

/-!
# MI_example: the log of a step
-/

namespace NocSwap.MIExample

open List L1Line Function

open Ruby (DataBlock Callback Packet SequencerLine)

variable {B : Nat}

/-- The callbacks of a transition: on the data of a line in `M`, or on data that has just arrived.
-/
structure IsCallback (i : Nat) (l : L1Line B) (m : L1InMsg B) (cb : Callback B) : Prop where
  before : l.abs = .M cb.before ∨ ∃ r, m = .response r ∧ r.dataBlk = cb.before
  after : cb.after = SequencerLine.hitCallback cb.pkt cb.success cb.before

theorem IsCallback.after_eq {i : Nat} {l : L1Line B} {m : L1InMsg B} {cb : Callback B}
    (h : IsCallback i l m cb) (hs : cb.isStore = false) : cb.after = cb.before :=
  h.after.trans (SequencerLine.hitCallback_eq_self hs)

theorem L1Cache.Step.callbacks {c : L1Context B} {l : L1Line B} {event : L1Event} {w : L1Work B}
    (h : L1Cache.Step c l event w) :
    w.callbacks = [] ∨ ∃ cb, w.callbacks = [cb] ∧ IsCallback c.machineID l c.inMsg cb ∧
      w.line.abs = .M cb.after := by
  cases h with
  | @loadHit _ e pkt hev he ht hs hr hp =>
    refine .inr ⟨_, rfl, ⟨.inl ?_, (SequencerLine.hitCallback_of_isReadCallback _ hp).symm⟩, ?_⟩
    · simp [L1Line.abs, getState, entryData, he, ht, hs, loadCallback]
    · simp [L1Line.abs, getState, entryData, he, ht, hs, loadCallback]
  | @storeHit e pkt he ht hs hr =>
    refine .inr ⟨_, rfl, ⟨.inl ?_, rfl⟩, ?_⟩
    · simp [L1Line.abs, getState, entryData, he, ht, hs, storeCallback]
    · simp [L1Line.abs, getState, entryData, storeLine, hs]
  | @dataLoad e t m pkt hm he ht hs hr hp =>
    exact .inr ⟨_, rfl, ⟨.inr ⟨m, hm, rfl⟩, (SequencerLine.hitCallback_of_isReadCallback _ hp).symm⟩, rfl⟩
  | @dataStore e t m pkt hm he ht hs hr =>
    exact .inr ⟨_, rfl, ⟨.inr ⟨m, hm, rfl⟩, rfl⟩, rfl⟩
  | _ => exact .inl rfl

namespace System

variable {P : Params} {s s' : System B} {l : Label B} {x : Nat}

inductive LogStep (s s' : System B) : Prop
  | none (h : s'.log = s.log)
  | callback {i x : Nat} {cb : Callback B} {m : L1InMsg B} (h : s'.log = s.log ++ [.callback i x cb])
      (hcb : IsCallback i (s.l1 i x) m cb)
      (hm : ∀ r, m = .response r → r ∈ s.responses.content ∧ r.addr = x ∧ r.destination = .L1Cache i)
      (hM : (s'.l1 i x).abs = .M cb.after)
  | memoryWrite {x n : Nat} {r : MemoryRequest} {data : List UInt8} (h : s'.log = s.log ++
        [.memoryWrite x (s.dir x).dmaWriter (s.memory x) ((s.memory x).setData data 0)])
      (hr : s.memoryRequests[n]? = some r) (hx : r.addr = x) (hw : r.write = some data)
  | dmaRead {x : Nat} {b : DataBlock B} (h : s'.log = s.log ++ [.dmaRead x b])
      (hd : (s.dir x).getState = .ID ∨ (s.dir x).getState = .M_DRD ∧
        ∃ m ∈ s.requests.content, m.addr = x ∧ m.type = .PUTX ∧
          m.requestor ∈ (s.dir x).entry.owner)
  | dmaCallback {k x : Nat} {cb : DMACallback B} (h : s'.log = s.log ++ [.dmaCallback k x cb])

theorem logStep_applyL1 {i : Nat} {m : L1InMsg B} {event : L1Event} {w : L1Work B}
    (hw : L1Cache.Step (s.l1Context P i x m) (s.l1 i x) event w)
    (hm : ∀ r, m = .response r → r ∈ s.responses.content ∧ r.addr = x ∧ r.destination = .L1Cache i) :
    LogStep s (s.applyL1 i x w) := by
  rcases hw.callbacks with hcb | ⟨cb, hcb, his, hM⟩
  · exact .none (by simp [applyL1, hcb])
  · have hlog : (s.applyL1 i x w).log = s.log ++ [.callback i x cb] := by simp [applyL1, hcb]
    refine .callback hlog his hm ?_
    simpa [applyL1, setL1] using hM

theorem dirStep_dmaReads {c : DirContext B} {l : DirLine B}
    {event : DirEvent} {w : DirWork B} (h : Directory.Step c l event w) :
    (w.dmaResponses.filter fun m => m.type = .DATA) = [] ∨
      ∃ r, (w.dmaResponses.filter fun m => m.type = .DATA) = [r] ∧
        (l.getState = .ID ∨ l.getState = .M_DRD ∧ event = .PUTX) := by
  cases h with
  | writebackRead hm ht hs => exact .inr ⟨_, rfl, .inr ⟨hs, rfl⟩⟩
  | dmaData hm ht hs => exact .inr ⟨_, rfl, .inl hs⟩
  | _ => exact .inl rfl

theorem logStep_applyDir {d : Nat} {m : DirInMsg B} {event : DirEvent} {w : DirWork B}
    (hw : Directory.Step (s.dirContext P d x m) (s.dir x) event w)
    (hm : event = .PUTX → ∃ m ∈ s.requests.content, m.addr = x ∧ m.type = .PUTX ∧
      m.requestor ∈ (s.dir x).entry.owner) : LogStep s (s.applyDir d x w) := by
  rcases dirStep_dmaReads hw with hr | ⟨r, hr, hs⟩
  · exact .none (by simp [applyDir, hr])
  · refine .dmaRead (x := x) (b := r.dataBlk) (by simp [applyDir, hr]) ?_
    exact hs.imp_right fun hs => ⟨hs.1, hm hs.2⟩

theorem logStep_applyDMA {k : Nat} {m : DMAInMsg B} {event : DMAEvent} {w : DMAWork B}
    (hw : DMA.Step (s.dmaContext P k x m) (s.dma k x) event w) : LogStep s (s.applyDMA k x w) := by
  have hcb : w.callbacks = [] ∨ ∃ cb, w.callbacks = [cb] := by
    cases hw with
    | data | ack => exact .inr ⟨_, rfl⟩
    | _ => exact .inl rfl
  rcases hcb with hcb | ⟨cb, hcb⟩
  · exact .none (by simp [applyDMA, hcb])
  · have hlog : (s.applyDMA k x w).log = s.log ++ [.dmaCallback k x cb] := by simp [applyDMA, hcb]
    exact .dmaCallback hlog

theorem StepTo.logStep (hs : StepTo P s l s') : LogStep s s' := by
  cases hs with
  | idle | makeRequest | delayForward | delayResponse | makeDMARequest | serveRead =>
    exact .none rfl
  | requeue v n => exact .none (sameContent_requeue v n).log
  | deliver v n => exact .none (sameContent_deliver v n).log
  | forwardIn hm hb hev hw | mandatoryIn hm hev hw | replacement hm he hav hv hw =>
    exact logStep_applyL1 hw fun r hr => by cases hr
  | responseIn hm hb hw =>
    refine logStep_applyL1 hw fun r hr => ?_
    cases hr
    refine ⟨MsgChannel.mem_content_of_head hm, rfl, ?_⟩
    simpa [responsePort] using MsgChannel.pos_of_head hm
  | @requestIn d m event w hm hev hw =>
    refine logStep_applyDir hw fun hput => ⟨m, MsgChannel.mem_content_of_head hm, rfl, ?_⟩
    subst hput
    exact Directory.of_requestEvent_PUTX hev
  | @dmaRequestIn d m w hm hw =>
    refine logStep_applyDir hw fun hput => ?_
    cases ht : m.type <;> simp [Directory.dmaRequestEvent, ht] at hput
  | @memoryIn d m w hm hw =>
    refine logStep_applyDir hw fun hput => ?_
    cases ht : m.type <;> simp [Directory.memoryEvent, ht] at hput
  | dmaMandatoryIn hm hw | dmaResponseIn hm hw => exact logStep_applyDMA hw
  | serveWrite hr hw => exact .memoryWrite rfl hr rfl hw

def Replaces (P : Params) (s : System B) (l : Label B) (i x : Nat) : Prop :=
  l = .mandatoryIn i x ∧ ∃ m, s.mandatory.head (mandatoryPort i) = some m ∧
    (s.l1 i m.lineAddress).cacheEntry = none ∧ s.cacheAvail P i m.lineAddress = false ∧
    s.IsVictim P i m.lineAddress x

structure L1Transition (P : Params) (s : System B) (l : Label B) (s' : System B) (i x : Nat)
    (event : L1Event) (m : L1InMsg B) (w : L1Work B) : Prop where
  eq : s' = s.applyL1 i x w
  step : L1Cache.Step (s.l1Context P i x m) (s.l1 i x) event w
  blocked : event.isForward = true ∨ event = .Data → (s.l1 i x).sequencer.blocked = false
  replaces : event = .Replacement → Replaces P s l i x
  forward : event.isForward = true → ∃ m', s.forwards.head (forwardPort i) = some m' ∧ m'.addr = x ∧
    L1Cache.forwardEvent m'.type = .ok event

structure L1Same (s s' : System B) (i x : Nat) : Prop where
  cacheEntry : (s'.l1 i x).cacheEntry = (s.l1 i x).cacheEntry
  tbe : (s'.l1 i x).tbe = (s.l1 i x).tbe
  blocked : (s'.l1 i x).sequencer.blocked = (s.l1 i x).sequencer.blocked
  log : ∀ cb, s'.log ≠ s.log ++ [.callback i x cb]

theorem l1Same_of_l1_eq {i : Nat} {es : List (LogEntry B)} (hl : s'.l1 = s.l1)
    (hlog : s'.log = s.log ++ es) (hes : ∀ cb, .callback i x cb ∉ es) : L1Same s s' i x := by
  refine ⟨by rw [hl], by rw [hl], by rw [hl], fun cb h => hes cb ?_⟩
  rw [hlog] at h
  rw [append_cancel_left h]
  exact mem_singleton_self _

theorem l1Same_of_log_eq {i : Nat} (hl : s'.l1 = s.l1) (hlog : s'.log = s.log) : L1Same s s' i x :=
  l1Same_of_l1_eq hl (hlog.trans (append_nil _).symm) fun _ => not_mem_nil

@[simp] theorem setL1_self {i : Nat} {line : L1Line B} : (s.setL1 i x line).l1 i x = line := by
  simp [setL1]

theorem setL1_of_ne {i j y : Nat} {line : L1Line B} (h : ¬ (j = i ∧ y = x)) :
    (s.setL1 i x line).l1 j y = s.l1 j y := by
  simp only [setL1]
  rcases eq_or_ne j i with rfl | hj
  · have hy : y ≠ x := fun hy => h ⟨rfl, hy⟩
    rw [update_self, update_of_ne hy]
  · rw [update_of_ne hj]

theorem l1Same_applyL1 {i j y : Nat} {w : L1Work B} (h : ¬ (j = i ∧ y = x)) :
    L1Same s (s.applyL1 i x w) j y := by
  have hline : (s.applyL1 i x w).l1 j y = s.l1 j y := setL1_of_ne h
  refine ⟨by rw [hline], by rw [hline], by rw [hline], fun cb hlog => ?_⟩
  have hmem : .callback j y cb ∈ w.callbacks.map (LogEntry.callback i x) := by
    rw [append_cancel_left hlog]
    exact mem_singleton_self _
  obtain ⟨cb', -, heq⟩ := mem_map.mp hmem
  cases heq
  exact h ⟨rfl, rfl⟩

theorem l1Same_makeRequest {i j y : Nat} {pkt : Packet B} {seq : SequencerLine B}
    (hseq : (s.l1 j y).sequencer.insertRequest pkt = (.Ready, seq)) {c : MsgChannel RubyRequest} :
    L1Same s { s.setL1 j y { s.l1 j y with sequencer := seq } with mandatory := c } i x := by
  have hblocked : seq.blocked = (s.l1 j y).sequencer.blocked := by
    rw [(SequencerLine.of_insertRequest_ready hseq).2.2.2]
    split <;> rfl
  refine ⟨?_, ?_, ?_, by simp [setL1]⟩
  all_goals
    show _ = _
    rcases em (i = j ∧ x = y) with ⟨rfl, rfl⟩ | hne
    · simp [hblocked]
    · simp only [setL1_of_ne hne]

theorem StepTo.l1_cases (hs : StepTo P s l s') (i x : Nat) :
    (∃ event m w, L1Transition P s l s' i x event m w) ∨ L1Same s s' i x := by
  have hgo : ∀ j y event m w, L1Transition P s l s' j y event m w →
      (∃ event m w, L1Transition P s l s' i x event m w) ∨ L1Same s s' i x := by
    intro j y event m w h
    rcases em (i = j ∧ x = y) with ⟨rfl, rfl⟩ | hne
    · exact .inl ⟨event, m, w, h⟩
    · rw [h.eq]
      exact .inr (l1Same_applyL1 hne)
  cases hs with
  | idle | delayForward | delayResponse | makeDMARequest | serveRead =>
    exact .inr (l1Same_of_log_eq rfl rfl)
  | requeue v n =>
    exact .inr (l1Same_of_log_eq (sameContent_requeue v n).l1 (sameContent_requeue v n).log)
  | deliver v n =>
    exact .inr (l1Same_of_log_eq (sameContent_deliver v n).l1 (sameContent_deliver v n).log)
  | makeRequest hx hseq => exact .inr (l1Same_makeRequest hseq)
  | forwardIn hm hb hev hw =>
    refine hgo _ _ _ _ _ ⟨rfl, hw, fun _ => hb, fun he => ?_, fun _ => ⟨_, hm, rfl, hev⟩⟩
    subst he
    exact absurd (L1Cache.isForward_of_forwardEvent hev) Bool.false_ne_true
  | responseIn hm hb hw =>
    exact hgo _ _ _ _ _ ⟨rfl, hw, fun _ => hb, (by cases ·), (by cases ·)⟩
  | mandatoryIn hm hev hw =>
    have hevent := L1Cache.event_of_mandatory hev
    refine hgo _ _ _ _ _ ⟨rfl, hw, fun hf => ?_, fun he => ?_, fun hf => ?_⟩
    · rcases hevent with rfl | rfl | rfl <;> simp [L1Event.isForward] at hf
    · rcases hevent with rfl | rfl | rfl <;> cases he
    · rcases hevent with rfl | rfl | rfl <;> cases hf
  | @replacement j v m w hm he hav hv hw =>
    refine hgo _ _ _ _ _ ⟨rfl, hw, fun hf => ?_, fun _ => ⟨rfl, m, hm, he, hav, hv⟩, fun hf => ?_⟩
    · simp [L1Event.isForward] at hf
    · cases hf
  | requestIn | dmaRequestIn | memoryIn | dmaMandatoryIn | dmaResponseIn =>
    exact .inr (l1Same_of_l1_eq rfl rfl (by simp))
  | serveWrite => exact .inr (l1Same_of_l1_eq rfl rfl (by simp))

theorem LogStep.log_eq (h : LogStep s s') : s'.log = s.log ∨ ∃ e, s'.log = s.log ++ [e] := by
  cases h with
  | none h => exact .inl h
  | callback h | memoryWrite h | dmaRead h | dmaCallback h => exact .inr ⟨_, h⟩

section Holder

variable {v : DataBlock B}

theorem mem_lineMsgs_of_response {m : ResponseMsg B} {a : LineMsg (DataBlock B)}
    (hm : m ∈ s.responses.content) (ha : lineResponse x m = some a) : a ∈ s.lineMsgs x := by
  unfold lineMsgs
  refine Multiset.mem_add.mpr (.inl (Multiset.mem_add.mpr (.inl (Multiset.mem_add.mpr (.inr ?_)))))
  exact (Multiset.mem_filterMap ..).mpr ⟨m, hm, ha⟩

theorem mem_lineMsgs_of_request {m : RequestMsg B} {a : LineMsg (DataBlock B)}
    (hm : m ∈ s.requests.content) (ha : lineRequest x m = some a) : a ∈ s.lineMsgs x := by
  unfold lineMsgs
  refine Multiset.mem_add.mpr (.inl (Multiset.mem_add.mpr (.inl (Multiset.mem_add.mpr (.inl
    (Multiset.mem_add.mpr (.inl ?_)))))))
  exact (Multiset.mem_filterMap ..).mpr ⟨m, hm, ha⟩

theorem mem_lineMsgs_of_memoryRequest {r : MemoryRequest} {a : LineMsg (DataBlock B)}
    (hr : r ∈ s.memoryRequests) (ha : lineMemoryRequest x r = some a) : a ∈ s.lineMsgs x := by
  unfold lineMsgs
  refine Multiset.mem_add.mpr (.inl (Multiset.mem_add.mpr (.inr ?_)))
  exact (Multiset.mem_filterMap ..).mpr ⟨r, hr, ha⟩

theorem abs_of_getState_eq_M {l : L1Line B} (h : l.getState = .M) : ∃ b, l.abs = .M b := by
  unfold L1Line.abs
  rw [h]
  exact ⟨_, rfl⟩

theorem holds_of_M {i : Nat} (h : (s.l1 i x).getState = .M) : (line x v s).Holds i := by
  obtain ⟨b, hb⟩ := abs_of_getState_eq_M h
  unfold LineState.Holds
  rw [show (line x v s).cache i = .M b from hb]
  trivial

theorem callback_value {i : Nat} {m : L1InMsg B} {cb : Callback B}
    (h : IsCallback i (s.l1 i x) m cb) (hv : (line x v s).Inv)
    (hm : ∀ r, m = .response r →
      r ∈ s.responses.content ∧ r.addr = x ∧ r.destination = .L1Cache i) :
    (line x v s).Holds i ∧ cb.before = v := by
  rcases h.before with hM | ⟨r, hr, hb⟩
  · have hh : (line x v s).Holds i := by
      unfold LineState.Holds
      rw [show (line x v s).cache i = .M cb.before from hM]
      trivial
    refine ⟨hh, (hv.coherent.holder i hh).cache cb.before ?_⟩
    rw [show (line x v s).cache i = .M cb.before from hM]
    rfl
  · obtain ⟨hmem, haddr, hdest⟩ := hm r hr
    have hdata : .data i cb.before ∈ (line x v s).msgs :=
      mem_lineMsgs_of_response hmem (by simp [lineResponse, haddr, hdest, MachineID.cache?, hb])
    have hh := LineState.holds_of_data (hv.cache i) hdata
    exact ⟨hh, (hv.coherent.holder i hh).data cb.before hdata⟩

theorem not_holds_of_write (hv : (line x v s).Inv) {r : MemoryRequest} {data : List UInt8}
    (hr : r ∈ s.memoryRequests) (hx : r.addr = x) (hw : r.write = some data) (i : Nat) :
    ¬ (line x v s).Holds i := by
  have hmem : .write r.originalRequestor.cache? (fun b => b.setData data 0) ∈ (line x v s).msgs :=
    mem_lineMsgs_of_memoryRequest hr (by simp [lineMemoryRequest, hx, hw])
  apply hv.coherent.home
  obtain ⟨ms, hms⟩ := Multiset.exists_cons_of_mem hmem
  exact (hv.dir.of_write hms).1

theorem not_M_of_dmaRead (hok : s.Ok P) (hv : (line x v s).Inv)
    (hd : (s.dir x).getState = .ID ∨ (s.dir x).getState = .M_DRD ∧
      ∃ m ∈ s.requests.content, m.addr = x ∧ m.type = .PUTX ∧
        m.requestor ∈ (s.dir x).entry.owner) (i : Nat) : (s.l1 i x).getState ≠ .M := by
  intro hM
  have hh : (line x v s).Holds i := holds_of_M hM
  rcases hd with hd | ⟨-, m, hm, haddr, htype, howner⟩
  · refine hv.coherent.home ?_ i hh
    rw [show (line x v s).dir = .ID from hd]
    rfl
  · obtain ⟨-, -, j, hj, -⟩ := hok.msgs.requests m hm
    have hput : .putx j m.dataBlk ∈ (line x v s).msgs :=
      mem_lineMsgs_of_request hm (by simp [lineRequest, haddr, hj, htype, MachineID.cache?])
    rw [hj] at howner
    have ho : j ∈ (line x v s).owner := mem_owner_iff.mpr howner
    obtain ⟨ms, hms⟩ := Multiset.exists_cons_of_mem hput
    obtain ⟨⟨b, hb⟩, hj'⟩ := (hv.cache j).holds_of_putx hms (hv.dir.owner_eq ho)
    cases hv.coherent.unique i j hh hj'
    obtain ⟨b', hb'⟩ := abs_of_getState_eq_M hM
    cases hb.symm.trans hb'

theorem LogStep.of_M (h : s.Inv P) (hs : LogStep s s') {i : Nat}
    (hM : (s.l1 i x).getState = .M) {e : LogEntry B} (he : s'.log = s.log ++ [e]) :
    (∀ d b b', e ≠ .memoryWrite x d b b') ∧ (∀ b, e ≠ .dmaRead x b) ∧
      ∀ j cb, e = .callback j x cb → j = i := by
  obtain ⟨v, hv⟩ := h.line x
  have hh : (line x v s).Holds i := holds_of_M hM
  cases hs with
  | none hlog => simp [hlog] at he
  | @callback j _ cb _ hlog hcb hm =>
    rw [hlog] at he
    cases singleton_inj.mp (append_cancel_left he)
    refine ⟨by simp, by simp, fun j' cb' heq => ?_⟩
    cases heq
    exact hv.coherent.unique j i (callback_value hcb hv hm).1 hh
  | memoryWrite hlog hr hx hw =>
    rw [hlog] at he
    cases singleton_inj.mp (append_cancel_left he)
    refine ⟨fun d b b' heq => ?_, by simp, by simp⟩
    cases heq
    exact not_holds_of_write hv (mem_of_getElem? hr) hx hw i hh
  | dmaRead hlog hd =>
    rw [hlog] at he
    cases singleton_inj.mp (append_cancel_left he)
    refine ⟨by simp, fun b heq => ?_, by simp⟩
    cases heq
    exact not_M_of_dmaRead h.ok hv hd i hM
  | dmaCallback hlog =>
    rw [hlog] at he
    cases singleton_inj.mp (append_cancel_left he)
    exact ⟨by simp, by simp, by simp⟩

end Holder

end System

end NocSwap.MIExample
