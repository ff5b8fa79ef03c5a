import NocSwap.Protocol.MI.Correct.Coherence
import NocSwap.Protocol.MI.Correct.Races

/-!
# MI_example: deadlock

In a state where no message is under way and no controller can act, the requests, responses and
answers of the memory are shown to be used up, and then the forwarded messages, in their order.
-/

namespace NocSwap.MIExample

open List LineState MachineID

open Ruby (DataBlock Packet SequencerLine)

variable {B : Nat}

/-- The transition exists and does not stall. -/
def L1Cache.Acts (st : L1State) (event : L1Event) : Prop :=
  ∃ t ∈ L1Cache.transition st event, L1Action.z_stall ∉ t.1

/-- The transition exists and does not recycle. -/
def Directory.Acts (st : DirState) (event : DirEvent) : Prop :=
  ∃ t ∈ Directory.transition st event,
    DirAction.z_recycleRequestQueue ∉ t.1 ∧ DirAction.y_recycleDMARequestQueue ∉ t.1

def L1State.isTransient : L1State → Bool
  | .I | .M => false
  | _ => true

def Label.isLockedRMWRead : Label B → Bool
  | .makeRequest _ _ pkt => pkt.kind = .lockedRMWRead
  | _ => false

theorem LineState.CacheOk.of_getx {β : Type} {s : LineState β} {k : Nat} (h : CacheOk s k)
    (hm : .getx k ∈ s.msgs) : tally s.msgs k .fwdTo = 0 ∧ s.owner.count k = 0 := by
  have hle := unit_le_tally hm k .getx
  simp only [LineMsg.unit, if_true] at hle
  unfold CacheOk at h
  cases hc : s.cache k with
  | _ =>
    rw [hc] at h
    simp only [CountsOk] at h
    omega

theorem LineState.CacheOk.tally_of_fetch {β : Type} {s : LineState β} {k : Nat} (h : CacheOk s k)
    (hs : (s.cache k).state = .IS ∨ (s.cache k).state = .IM) :
    tally s.msgs k .wbAck = 0 ∧ tally s.msgs k .write = 0 ∧
      tally s.msgs k .getx + tally s.msgs k .fwdFrom + tally s.msgs k .data +
        tally s.msgs k .fetch = 1 := by
  unfold CacheOk at h
  cases hc : s.cache k with
  | IS | IM =>
    rw [hc] at h
    simp only [CountsOk] at h
    omega
  | _ => simp [hc, CacheState.state] at hs

theorem L1Cache.stall_of_not_acts {st : L1State} {event : L1Event} (hev : event.isForward = true)
    (hcov : transition st event ≠ none) (h : ¬ Acts st event) :
    (st = .IS ∨ st = .IM) ∧ (event = .Fwd_GETX ∨ event = .Inv) := by
  have hgo : ∀ t, transition st event = some t → L1Action.z_stall ∈ t.1 := by
    intro t ht
    by_contra hz
    exact h ⟨t, ht, hz⟩
  cases event with
  | Fwd_GETX | Inv | Writeback_Ack | Writeback_Nack =>
    cases st <;> simp [transition] at hcov hgo ⊢
  | _ => cases hev

/-- The directory stalls no answer of its memory. -/
theorem Directory.acts_of_memory {st : DirState} {t : MemoryRequestType}
    (hcov : transition st (memoryEvent t) ≠ none) : Acts st (memoryEvent t) := by
  cases t <;> cases st <;> simp [Acts, memoryEvent, transition] at hcov ⊢

namespace System

variable {P : Params} {s s' : System B} {l : Label B} {i x : Nat}

/-- A message is in the network, or the memory has a request to serve. -/
def UnderWay (s : System B) : Prop :=
  s.requests.net ≠ [] ∨ s.forwards.net ≠ [] ∨ s.responses.net ≠ [] ∨ s.memoryRequests ≠ [] ∨
    s.memoryResponses.net ≠ []

/-- A controller has a message at an in_port for which it does not stall. -/
inductive CanAct (P : Params) (s : System B) : Prop
  | forward {i : Nat} {m : RequestMsg B} {event : L1Event}
      (hm : s.forwards.head (forwardPort i) = some m)
      (hb : (s.l1 i m.addr).sequencer.blocked = false)
      (hev : L1Cache.forwardEvent m.type = .ok event)
      (ha : L1Cache.Acts (s.l1 i m.addr).getState event)
  | response {i : Nat} {m : ResponseMsg B} (hm : s.responses.head (responsePort i) = some m)
      (hb : (s.l1 i m.addr).sequencer.blocked = false)
      (ha : L1Cache.Acts (s.l1 i m.addr).getState .Data)
  | mandatory {i : Nat} {m : RubyRequest} {event : L1Event}
      (hm : s.mandatory.head (mandatoryPort i) = some m)
      (hav : ¬ ((s.l1 i m.lineAddress).cacheEntry = none ∧ s.cacheAvail P i m.lineAddress = false))
      (hev : L1Cache.mandatory_request_type_to_event m.type = .ok event)
      (ha : L1Cache.Acts (s.l1 i m.lineAddress).getState event)
  | replacement {i v : Nat} {m : RubyRequest} (hm : s.mandatory.head (mandatoryPort i) = some m)
      (he : (s.l1 i m.lineAddress).cacheEntry = none)
      (hav : s.cacheAvail P i m.lineAddress = false) (hv : s.IsVictim P i m.lineAddress v)
      (ha : L1Cache.Acts (s.l1 i v).getState .Replacement)
  | request {d : Nat} {m : RequestMsg B} {event : DirEvent}
      (hm : s.requests.head (requestPort d) = some m)
      (hev : Directory.requestEvent m (s.dir m.addr) = .ok event)
      (ha : Directory.Acts (s.dir m.addr).getState event)
  | memory {d : Nat} {m : MemoryMsg B} (hm : s.memoryResponses.head (memoryPort d) = some m)
      (ha : Directory.Acts (s.dir m.addr).getState (Directory.memoryEvent m.type))
  /-- A recycled message, when it comes back. -/
  | recycled {m : RequestMsg B} {event : DirEvent} (hm : m ∈ s.requests.held)
      (hev : Directory.requestEvent m (s.dir m.addr) = .ok event)
      (ha : Directory.Acts (s.dir m.addr).getState event)

section Unlocked

structure Unlocked (seq : SequencerLine B) : Prop where
  blocked : seq.blocked = false
  writeRequest : ∀ pkt ∈ seq.writeRequest, pkt.kind ≠ .lockedRMWRead

theorem unlocked_step {c : L1Context B} {l : L1Line B} {event : L1Event} {w : L1Work B}
    (h : Unlocked l.sequencer) (hw : L1Cache.Step c l event w) : Unlocked w.line.sequencer := by
  have hstore : ∀ pkt e, l.sequencer.writeRequest = some pkt →
      Unlocked (L1Cache.storeLine c.machineID pkt e l.sequencer).sequencer := by
    intro pkt e hr
    have hk := h.writeRequest pkt hr
    refine ⟨?_, fun p hp => by cases hp⟩
    have hne : pkt.kind.primaryType ≠ .Locked_RMW_Read := by
      cases hkind : pkt.kind <;> simp [hkind, Ruby.PacketKind.primaryType] at hk ⊢
    simp [L1Cache.storeLine, hne, h.blocked]
  cases hw with
  | storeHit he ht hs hr | dataStore hm he ht hs hr => exact hstore _ _ hr
  | loadHit | dataLoad => exact ⟨h.blocked, h.writeRequest⟩
  | _ => exact h

theorem StepTo.unlocked (h : ∀ i x, Unlocked (s.l1 i x).sequencer) (hs : StepTo P s l s')
    (hl : l.isLockedRMWRead = false) : ∀ i x, Unlocked (s'.l1 i x).sequencer := by
  have hset : ∀ {i x} {line : L1Line B}, Unlocked line.sequencer →
      ∀ j y, Unlocked ((s.setL1 i x line).l1 j y).sequencer := fun hline =>
    forall_setL1 (p := fun l => Unlocked l.sequencer) h hline
  cases hs with
  | @makeRequest i x pkt seq hx hseq =>
    refine hset ?_
    have hne : pkt.kind ≠ .lockedRMWRead := by simpa [Label.isLockedRMWRead] using hl
    obtain ⟨-, -, -, rfl⟩ := SequencerLine.of_insertRequest_ready hseq
    split
    · refine ⟨(h i x).blocked, fun p hp => ?_⟩
      cases hp
      exact hne
    · exact ⟨(h i x).blocked, (h i x).writeRequest⟩
  | forwardIn hm hb hev hw | responseIn hm hb hw | mandatoryIn hm hev hw
  | replacement hm he hav hv hw => exact hset (unlocked_step (h _ _) hw)
  | deliver v n =>
    rw [(sameContent_deliver v n).l1]
    exact h
  | requeue v n =>
    rw [(sameContent_requeue v n).l1]
    exact h
  | _ => exact h

end Unlocked

section Order

def Chained (a b : RequestMsg B) : Prop :=
  a.addr = b.addr ∧ a.type = .GETX ∧ b.type = .GETX ∧ b.requestor = a.destination

/-- `G` lists the messages on the forward network, and those between two machines in their order. -/
structure ForwardOrder (s : System B) (G : List (RequestMsg B)) : Prop where
  follows : s.forwards.Follows (fun m => (m.source, m.destination)) G
  chained : G.Pairwise fun a b => ¬ Chained a b
  irrefl : ∀ a ∈ G, ¬ Chained a a

variable {w : DirWork B}

theorem dirStep_forward {c : DirContext B} {l : DirLine B} {event : DirEvent}
    (h : Directory.Step c l event w) {b : RequestMsg B} (hb : b ∈ w.forwards)
    (ht : b.type = .GETX) :
    ∃ r, c.inMsg = .request r ∧ event = .GETX ∧ b.addr = c.address ∧ b.requestor = r.requestor ∧
      l.entry.owner = [b.destination] := by
  cases h with
  | @forward r o hr hs ho =>
    cases mem_singleton.mp hb
    exact ⟨r, hr, rfl, rfl, rfl, ho⟩
  | dmaInv | nack | ack | ackWrite =>
    cases mem_singleton.mp hb
    cases ht
  | _ => cases hb

theorem fwd_mem_lineMsgs (h : s.MsgsOk P) {m : RequestMsg B} (hm : m ∈ s.forwards.content)
    (ht : m.type = .GETX) (hdest : m.destination = .L1Cache i) :
    ∃ j, m.requestor = .L1Cache j ∧ .fwd i j ∈ s.lineMsgs m.addr := by
  obtain ⟨-, -, -, hreq⟩ := h.forwards m hm
  obtain ⟨j, hj⟩ := hreq ht
  exact ⟨j, hj, mem_lineMsgs_of_forward hm (by simp [lineForward, hdest, ht, hj, cache?])⟩

variable {G : List (RequestMsg B)}

theorem not_chained_of_forward (hinv : s.Inv P) (hG : ∀ a ∈ G, a ∈ s.forwards.content) {d : Nat}
    {m : RequestMsg B} {event : DirEvent} (hm : s.requests.head (requestPort d) = some m)
    (hev : Directory.requestEvent m (s.dir m.addr) = .ok event)
    (hw : Directory.Step (s.dirContext P d m.addr (.request m)) (s.dir m.addr) event w)
    {b : RequestMsg B} (hb : b ∈ w.forwards) : (∀ a ∈ G, ¬ Chained a b) ∧ ¬ Chained b b := by
  have hgo : b.type = .GETX → ∃ j v, b.addr = m.addr ∧ b.requestor = .L1Cache j ∧
      (line m.addr v s).CacheOk j ∧ .getx j ∈ s.lineMsgs m.addr ∧
      (b.destination = .L1Cache j → (line m.addr v s).owner = [j]) := by
    intro ht
    obtain ⟨r, hr, rfl, haddr, hreq, ho⟩ := dirStep_forward hw hb ht
    cases hr
    have hmem := MsgChannel.mem_content_of_head hm
    obtain ⟨-, -, j, hj, -⟩ := hinv.ok.msgs.requests m hmem
    obtain ⟨v, hv⟩ := hinv.line m.addr
    have htype := Directory.eq_GETX_of_requestEvent hev
    refine ⟨j, v, haddr, hreq.trans hj, hv.cache j, mem_lineMsgs_of_request hmem ?_, fun hdest => ?_⟩
    · simp [lineRequest, hj, htype, cache?]
    · simp [line, ho, hdest, cache?]
  constructor
  · rintro a ha ⟨haddr, hta, htb, hreq⟩
    obtain ⟨j, v, hb, hj, hc, hgetx, -⟩ := hgo htb
    obtain ⟨k, -, hfwd⟩ := fwd_mem_lineMsgs hinv.ok.msgs (hG a ha) hta (hreq.symm.trans hj)
    rw [haddr, hb] at hfwd
    exact notMem_of_tally (hc.of_getx hgetx).1 (by simp [LineMsg.unit]) hfwd
  · rintro ⟨-, -, htb, hreq⟩
    obtain ⟨j, v, -, hj, hc, hgetx, ho⟩ := hgo htb
    have hcount := (hc.of_getx hgetx).2
    rw [ho (hreq.symm.trans hj)] at hcount
    simp at hcount

theorem ForwardOrder.send (h : ForwardOrder s G) {d : Nat} (hlen : w.forwards.length ≤ 1)
    (hnot : ∀ b ∈ w.forwards, (∀ a ∈ G, ¬ Chained a b) ∧ ¬ Chained b b) :
    ForwardOrder (s.applyDir d x w) (G ++ w.forwards) where
  follows := h.follows.send w.forwards
  chained := by
    refine pairwise_append.mpr ⟨h.chained, ?_, fun a ha b hb => (hnot b hb).1 a ha⟩
    rcases hf : w.forwards with _ | ⟨a, _ | ⟨b, t⟩⟩
    · exact List.Pairwise.nil
    · exact pairwise_singleton ..
    · simp [hf] at hlen
  irrefl a ha := by
    rcases mem_append.mp ha with ha | ha
    · exact h.irrefl a ha
    · exact (hnot a ha).2

theorem ForwardOrder.applyL1 (h : ForwardOrder s G) {w : L1Work B}
    (hd : .forwardRequestNetwork_in ∈ w.dequeued →
      ∃ m, s.forwards.head (forwardPort i) = some m) :
    ∃ G', ForwardOrder (s.applyL1 i x w) G' := by
  by_cases hmem : .forwardRequestNetwork_in ∈ w.dequeued
  · obtain ⟨m, hm⟩ := hd hmem
    refine ⟨G.eraseP fun a => (a.source, a.destination) = (m.source, m.destination), ?_, ?_, ?_⟩
    · show (if _ then _ else _ : MsgChannel _).Follows _ _
      rw [if_pos hmem]
      refine h.follows.pop hm fun a ha => ?_
      have hport := MsgChannel.pos_of_head hm
      unfold forwardPort at hport ⊢
      rwa [(Prod.mk.inj ha).2]
    · exact h.chained.sublist eraseP_sublist
    · exact fun a ha => h.irrefl a (eraseP_sublist.subset ha)
  · refine ⟨G, ?_, h.chained, h.irrefl⟩
    show (if _ then _ else _ : MsgChannel _).Follows _ _
    rw [if_neg hmem]
    exact h.follows

theorem StepTo.forwardOrder (hord : P.ordered = true) (hinv : s.Inv P)
    (hlock : ∀ i x, Unlocked (s.l1 i x).sequencer) (h : ForwardOrder s G)
    (hs : StepTo P s l s') : ∃ G', ForwardOrder s' G' := by
  have hsame : s'.forwards = s.forwards → ∃ G', ForwardOrder s' G' := fun hf =>
    ⟨G, by rw [hf]; exact h.follows, h.chained, h.irrefl⟩
  have hG : ∀ a ∈ G, a ∈ s.forwards.content := fun a ha =>
    MsgChannel.mem_content_of_mem_queue (h.follows.mem_iff.mpr ha)
  cases hs with
  | idle | makeRequest | delayResponse | makeDMARequest | serveRead | serveWrite
  | dmaMandatoryIn | dmaResponseIn => exact hsame rfl
  | delayForward hm hb =>
    rw [(hlock _ _).blocked] at hb
    cases hb
  | forwardIn hm hb hev hw => exact h.applyL1 fun _ => ⟨_, hm⟩
  | responseIn hm hb hw | replacement hm he hav hv hw =>
    exact h.applyL1 fun hd => by cases hw.dequeued.1 hd
  | mandatoryIn hm hev hw =>
    refine h.applyL1 fun hd => ?_
    have hfwd := hw.dequeued.1 hd
    rcases L1Cache.event_of_mandatory hev with rfl | rfl | rfl <;> cases hfwd
  | requestIn hm hev hw =>
    exact ⟨_, h.send hw.length_forwards fun b hb => not_chained_of_forward hinv hG hm hev hw hb⟩
  | dmaRequestIn hm hw | memoryIn hm hw =>
    refine ⟨_, h.send hw.length_forwards fun b hb => ?_⟩
    have hne : b.type ≠ .GETX := fun ht => by
      obtain ⟨r, hr, -⟩ := dirStep_forward hw hb ht
      cases hr
    exact ⟨fun a _ hc => hne hc.2.2.1, fun hc => hne hc.2.1⟩
  | deliver v n =>
    cases v with
    | forward =>
      refine ⟨G, ?_, h.chained, h.irrefl⟩
      show (arrive P _ n s.forwards).Follows _ _
      unfold arrive
      split
      case isTrue hf =>
        refine h.follows.deliver (hf hord) fun a b hab => ?_
        simp [(Prod.mk.inj hab).1, (Prod.mk.inj hab).2]
      case isFalse => exact h.follows
    | _ => exact hsame rfl
  | requeue v n => cases v <;> exact hsame rfl

structure Plain (s : System B) : Prop where
  noDMA : s.NoDMA
  unlocked : ∀ i x, Unlocked (s.l1 i x).sequencer
  order : ∃ G, ForwardOrder s G
  heldForwards : s.forwards.held = []
  heldResponses : s.responses.held = []
  heldMemory : s.memoryResponses.held = []

theorem plain_init (memory : Nat → DataBlock B) : (init memory).Plain where
  noDMA := ⟨rfl, rfl, fun _ => rfl⟩
  unlocked _ _ := ⟨rfl, fun _ hp => by cases hp⟩
  order := ⟨[], fun _ => rfl, List.Pairwise.nil, fun _ ha => by cases ha⟩
  heldForwards := rfl
  heldResponses := rfl
  heldMemory := rfl

theorem run_plain (hord : P.ordered = true) {memory : Nat → DataBlock B} {ls : List (Label B)}
    (hrun : (init memory).run P ls = .ok s) (hdma : ∀ l ∈ ls, l.isDMARequest = false)
    (hlock : ∀ l ∈ ls, l.isLockedRMWRead = false) : s.Plain := by
  let q : Label B → Prop := fun l => l.isDMARequest = false ∧ l.isLockedRMWRead = false
  refine (run_induction (P := P) (p := fun ls s => (∀ l ∈ ls, q l) → s.Plain)
    (fun _ => plain_init memory) (fun ls s l s' _ hinv ih hs _ hls => ?_) hrun).2 ?_
  · have h := ih fun l' hl' => hls l' (mem_append_left _ hl')
    obtain ⟨hld, hll⟩ := hls l (mem_append_right _ (mem_singleton_self l))
    obtain ⟨G, hG⟩ := h.order
    exact ⟨hs.noDMA hinv h.noDMA hld, hs.unlocked h.unlocked hll,
      hs.forwardOrder hord hinv h.unlocked hG, hs.held.1 h.heldForwards,
      hs.held.2.1 h.heldResponses, hs.held.2.2 h.heldMemory⟩
  · exact fun l hl => ⟨hdma l hl, hlock l hl⟩

end Order

section Stuck

variable {m : RequestMsg B} {a : LineMsg (DataBlock B)}

theorem lineForward_cases (h : lineForward x m = some a) :
    m.addr = x ∧ ((∃ i j, a = .fwd i j ∧ m.type = .GETX ∧ m.destination = .L1Cache i ∧
        m.requestor = .L1Cache j) ∨ (∃ i, a = .wbAck i) ∨ (∃ i, a = .wbNack i) ∨
        ∃ i, a = .inv i) := by
  simp only [lineForward] at h
  split at h
  case isTrue hx =>
    refine ⟨hx, ?_⟩
    obtain ⟨i, hi, h⟩ := Option.bind_eq_some_iff.mp h
    cases ht : m.type with
    | GETX =>
      simp only [ht] at h
      obtain ⟨j, hj, rfl⟩ := Option.map_eq_some_iff.mp h
      exact .inl ⟨i, j, rfl, rfl, cache?_eq_some.mp hi, cache?_eq_some.mp hj⟩
    | WB_ACK => exact .inr (.inl ⟨i, by simpa [ht, eq_comm] using h⟩)
    | WB_NACK => exact .inr (.inr (.inl ⟨i, by simpa [ht, eq_comm] using h⟩))
    | INV => exact .inr (.inr (.inr ⟨i, by simpa [ht, eq_comm] using h⟩))
    | PUTX => simp [ht] at h
  case isFalse => cases h

theorem lineRequest_cases
    (h : lineRequest x m = some a) : ∃ i, a = .getx i ∨ ∃ b, a = .putx i b := by
  simp only [lineRequest] at h
  split at h
  case isTrue =>
    obtain ⟨i, -, rfl⟩ := Option.map_eq_some_iff.mp h
    use i
    split
    · exact .inr ⟨_, rfl⟩
    · exact .inl rfl
  case isFalse => cases h

theorem exists_head {μ : Type} {c : MsgChannel μ} {p : μ → Bool} {m : μ} (hm : m ∈ c.buf)
    (hp : p m = true) : ∃ m', c.head p = some m' := by
  cases hh : c.head p with
  | some m' => exact ⟨m', rfl⟩
  | none => exact absurd hp (List.find?_eq_none.mp hh m hm)

/-- In a stuck system the memory is idle. -/
theorem memory_of_stuck (hinv : s.Inv P) (hplain : s.Plain) (hstuck : ¬ s.UnderWay)
    (hact : ¬ s.CanAct P) : s.memoryRequests = [] ∧ s.memoryResponses.content = 0 := by
  unfold UnderWay at hstuck
  simp only [not_or, not_not] at hstuck
  obtain ⟨-, -, -, hreq, hnet⟩ := hstuck
  refine ⟨hreq, Multiset.eq_zero_of_forall_notMem fun m hm => ?_⟩
  have hbuf : m ∈ s.memoryResponses.buf := by
    simpa [MsgChannel.content, hnet, hplain.heldMemory] using hm
  obtain ⟨m', hm'⟩ := exists_head (p := memoryPort m.directory) hbuf (by simp [memoryPort])
  exact hact (.memory hm' (Directory.acts_of_memory (memoryIn_covered hinv hm')))

theorem memTally_of_stuck (hreq : s.memoryRequests = []) (hresp : s.memoryResponses.content = 0)
    (κ : LineMsg.MemKind) : LineState.memTally (s.lineMsgs x) κ = 0 := by
  by_contra hne
  obtain ⟨a, ha, hu⟩ := exists_of_memTally hne
  rcases (mem_lineMsgs x).mp ha with ⟨m, -, hm⟩ | ⟨m, -, hm⟩ | ⟨m, -, hm⟩ | ⟨r, hr, -⟩ | ⟨m, hm, -⟩
  · obtain ⟨i, rfl | ⟨b, rfl⟩⟩ := lineRequest_cases hm
    all_goals exact hu (by cases κ <;> rfl)
  · obtain ⟨-, ⟨i, j, rfl, -⟩ | ⟨i, rfl⟩ | ⟨i, rfl⟩ | ⟨i, rfl⟩⟩ := lineForward_cases hm
    all_goals exact hu (by cases κ <;> rfl)
  · simp only [lineResponse] at hm
    split at hm
    case isTrue =>
      obtain ⟨i, -, rfl⟩ := Option.map_eq_some_iff.mp hm
      exact hu (by cases κ <;> rfl)
    case isFalse => cases hm
  · rw [hreq] at hr
    cases hr
  · rw [hresp] at hm
    cases Multiset.notMem_zero m hm

/-- In a stuck system no directory waits. -/
theorem dir_of_stuck (hinv : s.Inv P) (hplain : s.Plain) (hstuck : ¬ s.UnderWay)
    (hact : ¬ s.CanAct P) (x : Nat) : (s.dir x).getState = .I ∨ (s.dir x).getState = .M := by
  have hdma := hplain.noDMA.dir x
  have hdir := hinv.dirOk x DataBlock.clear
  obtain ⟨hreq, hresp⟩ := memory_of_stuck hinv hplain hstuck hact
  have hmem : ∀ κ, memTally (line x DataBlock.clear s).msgs κ = 0 := memTally_of_stuck hreq hresp
  unfold LineState.DirOk at hdir
  cases hst : (s.dir x).getState with
  | I => exact .inl rfl
  | M => exact .inr rfl
  | IM | MI =>
    simp only [show (line x DataBlock.clear s).dir = _ from hst, hmem] at hdir
    simp at hdir
  | _ => simp [hst, DirState.forDMA] at hdma

theorem dirActs_of_request (hinv : s.Inv P) (hm : m ∈ s.requests.content)
    (hdir : (s.dir m.addr).getState = .I ∨ (s.dir m.addr).getState = .M) :
    ∃ event, Directory.requestEvent m (s.dir m.addr) = .ok event ∧
      Directory.Acts (s.dir m.addr).getState event := by
  have howner := (hinv.ok.dir m.addr).owner
  rw [← (hinv.ok.dir m.addr).getState_eq] at howner
  rcases (hinv.ok.msgs.requests m hm).1 with ht | ht
  · refine ⟨.GETX, by simp only [Directory.requestEvent, ht]; rfl, ?_⟩
    rcases hdir with hst | hst
    all_goals
      rw [hst]
      exact ⟨_, rfl, by decide, by decide⟩
  · by_cases ho : m.requestor ∈ (s.dir m.addr).entry.owner
    · refine ⟨.PUTX, by simp only [Directory.requestEvent, ht, if_pos ho]; rfl, ?_⟩
      rcases hdir with hst | hst
      · simp only [hst, DirState.hasOwner, Bool.false_eq_true, if_false] at howner
        simp [howner] at ho
      · rw [hst]
        exact ⟨_, rfl, by decide, by decide⟩
    · refine ⟨.PUTX_NotOwner, by simp only [Directory.requestEvent, ht, if_neg ho]; rfl, ?_⟩
      rcases hdir with hst | hst
      all_goals
        rw [hst]
        exact ⟨_, rfl, by decide, by decide⟩

section

variable (hinv : s.Inv P) (hplain : s.Plain) (hstuck : ¬ s.UnderWay) (hact : ¬ s.CanAct P)
include hinv hplain hstuck hact

/-- In a stuck system no request is left. -/
theorem requests_of_stuck : s.requests.content = 0 := by
  refine Multiset.eq_zero_of_forall_notMem fun m hm => ?_
  have hgo := fun m (hm : m ∈ s.requests.content) =>
    dirActs_of_request hinv hm (dir_of_stuck hinv hplain hstuck hact m.addr)
  have hnet : s.requests.net = [] := by
    by_contra hne
    exact hstuck (.inl hne)
  have hmem := hm
  simp only [MsgChannel.content, hnet, Multiset.mem_add, Multiset.mem_coe, not_mem_nil,
    false_or] at hmem
  rcases hmem with hbuf | hheld
  · obtain ⟨-, hdest, -⟩ := hinv.ok.msgs.requests m hm
    obtain ⟨m', hm'⟩ := exists_head (p := requestPort (P.home m.addr)) hbuf (by simp [requestPort, hdest])
    obtain ⟨event, hev, ha⟩ := hgo m' (MsgChannel.mem_content_of_head hm')
    exact hact (.request hm' hev ha)
  · obtain ⟨event, hev, ha⟩ := hgo m hm
    exact hact (.recycled hheld hev ha)

/-- In a stuck system no response is left. -/
theorem responses_of_stuck : s.responses.content = 0 := by
  refine Multiset.eq_zero_of_forall_notMem fun m hm => ?_
  have hnet : s.responses.net = [] := by
    by_contra hne
    exact hstuck (.inr (.inr (.inl hne)))
  have hbuf : m ∈ s.responses.buf := by
    simpa [MsgChannel.content, hnet, hplain.heldResponses] using hm
  obtain ⟨i, hi⟩ := hinv.ok.msgs.responses m hm
  obtain ⟨m', hm'⟩ := exists_head (p := responsePort i) hbuf (by simp [responsePort, hi])
  refine hact (.response hm' (hplain.unlocked i m'.addr).blocked ?_)
  rcases responseIn_state hinv hm' with hst | hst
  all_goals
    rw [hst]
    exact ⟨_, rfl, by decide⟩

theorem forward_of_stuck (ha : a ∈ s.lineMsgs x) :
    ∃ m ∈ s.forwards.content, lineForward x m = some a := by
  have hreq := requests_of_stuck hinv hplain hstuck hact
  have hresp := responses_of_stuck hinv hplain hstuck hact
  obtain ⟨hmreq, hmresp⟩ := memory_of_stuck hinv hplain hstuck hact
  rw [mem_lineMsgs, hreq, hresp, hmreq, hmresp] at ha
  simpa using ha

end

section

variable (hinv : s.Inv P) (hok : s.InvalidateOk) (hplain : s.Plain) (hstuck : ¬ s.UnderWay) (hact : ¬ s.CanAct P)
include hinv hok hplain hstuck hact

theorem head_of_stuck (hm : s.forwards.head (forwardPort i) = some m) :
    ∃ m' ∈ s.forwards.content, Chained m m' := by
  have hmem := MsgChannel.mem_content_of_head hm
  have hdest : m.destination = .L1Cache i := by simpa [forwardPort] using MsgChannel.pos_of_head hm
  obtain ⟨hPUTX, -, -, hreq⟩ := hinv.ok.msgs.forwards m hmem
  obtain ⟨v, hv⟩ := hinv.line m.addr
  have hcache := hv.cache i
  have hstate : ((line m.addr v s).cache i).state = (s.l1 i m.addr).getState := L1Line.state_abs _
  -- a message that has a transition is stalled
  have hstall : ∀ event, L1Cache.forwardEvent m.type = .ok event →
      ((s.l1 i m.addr).getState = .IS ∨ (s.l1 i m.addr).getState = .IM) ∧
        (event = .Fwd_GETX ∨ event = .Inv) := by
    intro event hev
    have hcov := forwardIn_covered hinv hok hm hev
    have hnot : ¬ L1Cache.Acts (s.l1 i m.addr).getState event := fun ha =>
      hact (.forward hm (hplain.unlocked i m.addr).blocked hev ha)
    exact L1Cache.stall_of_not_acts (L1Cache.isForward_of_forwardEvent hev) hcov hnot
  cases ht : m.type with
  | PUTX => exact absurd ht hPUTX
  | WB_ACK =>
    have h := (hstall .Writeback_Ack (by rw [ht]; rfl)).2
    simp at h
  | WB_NACK =>
    have h := (hstall .Writeback_Nack (by rw [ht]; rfl)).2
    simp at h
  | INV =>
    -- without DMA, a cache that waits for data gets none
    have hst := (hstall .Inv (by rw [ht]; rfl)).1
    have hi : .inv i ∈ (line m.addr v s).msgs :=
      mem_lineMsgs_of_forward hmem (by simp [lineForward, hdest, ht, cache?])
    have hzero := hcache.tally_of_fetch (by rw [hstate]; exact hst)
    have hone : invTally (line m.addr v s).msgs i ≠ 0 := fun h =>
      notMem_of_invTally h hi
    rcases (hok.line i m.addr v).sent (by omega) with ⟨-, hd⟩ | hsent
    · have hdma : (line m.addr v s).dir.forDMA = false := hplain.noDMA.dir m.addr
      rcases hd with hd | hd
      all_goals simp [hd, DirState.forDMA] at hdma
    · omega
  | GETX =>
    have hst := (hstall .Fwd_GETX (by rw [ht]; rfl)).1
    have hwait := (hcache.tally_of_fetch (by rw [hstate]; exact hst)).2.2
    have hnone : ∀ κ, κ = .getx ∨ κ = .data ∨ κ = .fetch →
        tally (line m.addr v s).msgs i κ = 0 := by
      intro κ hκ
      by_contra hne
      obtain ⟨a, ha, hu⟩ := exists_of_tally hne
      obtain ⟨m', -, hm'⟩ := forward_of_stuck hinv hplain hstuck hact ha
      obtain ⟨-, ⟨j, k, rfl, -⟩ | ⟨j, rfl⟩ | ⟨j, rfl⟩ | ⟨j, rfl⟩⟩ := lineForward_cases hm'
      all_goals rcases hκ with rfl | rfl | rfl <;> exact hu rfl
    rw [hnone .getx (by simp), hnone .data (by simp), hnone .fetch (by simp)] at hwait
    have hfrom : tally (line m.addr v s).msgs i .fwdFrom ≠ 0 := by omega
    obtain ⟨a, ha, hu⟩ := exists_of_tally hfrom
    obtain ⟨m', hm', hline⟩ := forward_of_stuck hinv hplain hstuck hact ha
    obtain ⟨haddr, ⟨j, k, rfl, ht', -, hk⟩ | ⟨j, rfl⟩ | ⟨j, rfl⟩ | ⟨j, rfl⟩⟩ := lineForward_cases hline
    · have hki : k = i := by
        by_contra hne
        exact hu (if_neg hne)
      subst hki
      exact ⟨m', hm', haddr.symm, ht, ht', hk.trans hdest.symm⟩
    all_goals exact absurd rfl hu

theorem forwards_of_stuck
    (hone : ∀ m ∈ s.forwards.buf, ∀ m' ∈ s.forwards.buf, m.destination = m'.destination →
      m.source = m'.source) : s.forwards.content = 0 := by
  obtain ⟨G, hG⟩ := hplain.order
  have hnet : s.forwards.net = [] := by
    by_contra hne
    exact hstuck (.inr (.inl hne))
  have hmem : ∀ m, m ∈ s.forwards.content ↔ m ∈ G := fun m =>
    ⟨fun hm => hG.follows.mem_iff.mp (MsgChannel.mem_queue_of_mem_content hplain.heldForwards hm),
      fun hm => MsgChannel.mem_content_of_mem_queue (hG.follows.mem_iff.mpr hm)⟩
  cases G with
  | nil => exact Multiset.eq_zero_of_forall_notMem fun m hm => not_mem_nil ((hmem m).mp hm)
  | cons a G =>
    -- the first message of all is the head of its buffer
    have ha : a ∈ s.forwards.buf := by
      have hq := hG.follows.mem_iff.mpr (mem_cons_self ..)
      simpa [MsgChannel.queue, hnet] using hq
    obtain ⟨-, -, ⟨i, hi⟩, -⟩ := hinv.ok.msgs.forwards a ((hmem a).mpr (mem_cons_self ..))
    obtain ⟨m, hm⟩ := exists_head (p := forwardPort i) ha (by simp [forwardPort, hi])
    have hdest : m.destination = .L1Cache i := by simpa [forwardPort] using MsgChannel.pos_of_head hm
    have hsource : m.source = a.source :=
      hone m (mem_of_find?_eq_some hm) a ha (hdest.trans hi.symm)
    have hfirst := hG.follows (a.source, a.destination)
    rw [MsgChannel.filter_queue_of_head hm, filter_cons_of_pos (by simp)] at hfirst
    · obtain rfl : m = a := (List.cons.inj hfirst).1
      obtain ⟨m', hm', hch⟩ := head_of_stuck hinv hok hplain hstuck hact hm
      rcases mem_cons.mp ((hmem m').mp hm') with rfl | hmG
      · exact absurd hch (hG.irrefl m' (mem_cons_self ..))
      · exact absurd hch (rel_of_pairwise_cons hG.chained hmG)
    · intro b hb
      obtain ⟨-, hb⟩ := Prod.mk.inj (of_decide_eq_true hb)
      simp [forwardPort, hb, hi]
    · simp [hsource, hdest, hi]

end

end Stuck

/-- Without DMA and locked read-modify-writes, on a network that keeps the order, a system that
waits can go on while no cache has messages of two directories in its buffer. -/
theorem no_deadlock (hord : P.ordered = true) {memory : Nat → DataBlock B} {ls : List (Label B)}
    (hrun : (init memory).run P ls = .ok s) (hdma : ∀ l ∈ ls, l.isDMARequest = false)
    (hlock : ∀ l ∈ ls, l.isLockedRMWRead = false)
    (hone : ∀ m ∈ s.forwards.buf, ∀ m' ∈ s.forwards.buf, m.destination = m'.destination →
      m.source = m'.source)
    (hwait : (s.l1 i x).getState.isTransient = true) : s.UnderWay ∨ s.CanAct P := by
  by_contra hnot
  obtain ⟨hstuck, hact⟩ := not_or.mp hnot
  have hinv := run_inv hrun
  have hplain := run_plain hord hrun hdma hlock
  have hfwd := forwards_of_stuck hinv (run_invalidateOk hord hrun) hplain hstuck hact hone
  obtain ⟨v, hv⟩ := hinv.line x
  have hnone : ∀ κ, tally (line x v s).msgs i κ = 0 := by
    intro κ
    by_contra hne
    obtain ⟨a, ha, -⟩ := exists_of_tally hne
    obtain ⟨m, hm, -⟩ := forward_of_stuck hinv hplain hstuck hact ha
    rw [hfwd] at hm
    cases Multiset.notMem_zero m hm
  have hc := hv.cache i
  have hstate : ((line x v s).cache i).state = (s.l1 i x).getState := L1Line.state_abs _
  rw [← hstate] at hwait
  unfold LineState.CacheOk at hc
  cases hst : (line x v s).cache i with
  | I | M => simp [hst, CacheState.state, L1State.isTransient] at hwait
  | _ =>
    rw [hst] at hc
    simp [LineState.CountsOk, hnone] at hc

/-- A cache waits for a line that another cache has, and the request has been forwarded to it. -/
theorem no_deadlock_forwarded :
    let P : Params := ⟨1, fun _ => 0, fun _ _ => 0, fun _ => 1, 1, 1, 1, true⟩
    let load : Packet 1 := ⟨.read, 0, [0], by decide⟩
    ∃ s, (init fun _ => DataBlock.clear).run P
        (missSteps 0 0 0 load ++ (forwardSteps 1 0 0 0 load).take 6) = .ok s ∧
      (s.l1 1 0).getState = .IS ∧ (s.UnderWay ∨ s.CanAct P) := by
  intro P load
  refine exists_ok_of_toOption (fun s =>
    ((s.l1 1 0).getState, s.forwards.buf.map RequestMsg.source)) (.IS, [.Directory 0])
    (by decide +kernel) fun s hs hvals => ?_
  obtain ⟨hIS, hsource⟩ := Prod.mk.inj hvals
  have hone : ∀ m ∈ s.forwards.buf, m.source = .Directory 0 := by
    intro m hm
    have hmem := mem_map_of_mem (f := RequestMsg.source) hm
    simpa [hsource] using hmem
  refine ⟨hIS, no_deadlock rfl hs (by decide) (by decide)
    (fun m hm m' hm' _ => (hone m hm).trans (hone m' hm').symm) (i := 1) (x := 0) ?_⟩
  rw [hIS]
  rfl

def requestSteps (i x d : Nat) (pkt : Packet B) : List (Label B) := (missSteps i x d pkt).take 5

/-- Caches 0 and 1 request the lines of each other and cache 2 both; each gets the requests of two
directories in the order that blocks it. -/
theorem deadlock_two_directories :
    let P : Params := ⟨2, fun x => x, fun _ x => x, fun _ => 1, 2, 2, 1, true⟩
    let load : Packet 1 := ⟨.read, 0, [0], by decide⟩
    ∃ s, (init fun _ => DataBlock.clear).run P
        (missSteps 1 0 0 load ++ missSteps 0 1 1 load ++ requestSteps 0 0 0 load ++
          requestSteps 2 0 0 load ++ requestSteps 1 1 1 load ++ requestSteps 2 1 1 load ++
          [.deliver .forward 1, .deliver .forward 1, .deliver .forward 1, .deliver .forward 0]) =
        .ok s ∧
      (s.l1 0 0).getState = .IS ∧ ¬ s.UnderWay ∧ ¬ s.CanAct P := by
  intro P load
  refine exists_ok_of_toOption (fun s =>
      ([(s.l1 0 0).getState, (s.l1 1 1).getState],
        s.forwards.buf.map fun m => (m.addr, m.type, m.destination),
        (s.forwards.net ++ s.requests.net ++ s.requests.buf ++ s.requests.held).length +
          (s.responses.net ++ s.responses.buf).length + s.mandatory.buf.length +
          s.memoryRequests.length + (s.memoryResponses.net ++ s.memoryResponses.buf).length))
    ([.IS, .IS], [(0, .GETX, .L1Cache 0), (1, .GETX, .L1Cache 0), (1, .GETX, .L1Cache 1),
      (0, .GETX, .L1Cache 1)], 0) (by decide +kernel) fun s _ hvals => ?_
  simp only [Prod.mk.injEq, List.cons.injEq, and_true, Nat.add_eq_zero_iff, length_eq_zero_iff,
    append_eq_nil_iff] at hvals
  obtain ⟨⟨h₀, h₁⟩, hbuf, ⟨⟨⟨⟨⟨⟨hfnet, hqnet⟩, hqbuf⟩, hqheld⟩, hrnet, hrbuf⟩, hmand⟩, hmreq⟩,
    hmnet, hmbuf⟩ := hvals
  refine ⟨h₀, ?_, ?_⟩
  · simp [UnderWay, hfnet, hqnet, hrnet, hmreq, hmnet]
  · have hstall : ∀ i m, s.forwards.head (forwardPort i) = some m →
        m.type = .GETX ∧ (s.l1 i m.addr).getState = .IS := by
      simp only [map_eq_cons_iff, map_eq_nil_iff, Prod.mk.injEq] at hbuf
      obtain ⟨m₁, _, hb, ⟨ha₁, ht₁, hd₁⟩, m₂, _, rfl, ⟨-, -, hd₂⟩, m₃, _, rfl, ⟨ha₃, ht₃, hd₃⟩, m₄, _,
        rfl, ⟨-, -, hd₄⟩, rfl⟩ := hbuf
      intro i m hm
      unfold MsgChannel.head at hm
      rw [hb] at hm
      rcases eq_or_ne i 0 with rfl | hi
      · simp [forwardPort, hd₁] at hm
        subst hm
        exact ⟨ht₁, by rw [ha₁]; exact h₀⟩
      · rcases eq_or_ne i 1 with rfl | hi'
        · simp [forwardPort, hd₁, hd₂, hd₃] at hm
          subst hm
          exact ⟨ht₃, by rw [ha₃]; exact h₁⟩
        · simp [forwardPort, hd₁, hd₂, hd₃, hd₄, hi.symm, hi'.symm] at hm
    rintro (⟨hm, -, hev, ha⟩ | ⟨hm, -, -⟩ | ⟨hm, -, -, -⟩ | ⟨hm, -, -, -, -⟩ | ⟨hm, -, -⟩ | ⟨hm, -⟩ |
      ⟨hm, -, -⟩)
    · obtain ⟨ht, hst⟩ := hstall _ _ hm
      rw [ht] at hev
      cases hev
      obtain ⟨t, hmem, hz⟩ := ha
      rw [hst] at hmem
      cases hmem
      exact hz (mem_singleton_self _)
    · simp [MsgChannel.head, hrbuf] at hm
    · simp [MsgChannel.head, hmand] at hm
    · simp [MsgChannel.head, hmand] at hm
    · simp [MsgChannel.head, hqbuf] at hm
    · simp [MsgChannel.head, hmbuf] at hm
    · simp [hqheld] at hm

end System

end NocSwap.MIExample
