import NocSwap.Protocol.MI.Correct.DMARequests
import NocSwap.Protocol.MI.Correct.Invalidate
import NocSwap.Protocol.MI.Correct.Requests

/-!
# MI_example: which races the tables cover
-/

namespace NocSwap.MIExample

open MsgChannel Multiset LineMsg MachineID Directory

open Ruby (DataBlock)

def DirState.isInvalidating : DirState → Bool
  | .M_DRD | .M_DWR | .M_DRDI | .M_DWRI => true
  | _ => false

namespace LineState

variable {β : Type} {s : LineState β} {k : Nat}

theorem CacheOk.of_fwd {j : Nat} (h : CacheOk s k) (hm : .fwd k j ∈ s.msgs) :
    (s.cache k).state ≠ .I ∧ (s.cache k).state ≠ .II := by
  have hle := unit_le_tally hm k .fwdTo
  simp only [unit, if_true] at hle
  unfold CacheOk at h
  cases hc : s.cache k with
  | I | II =>
    rw [hc] at h
    simp only [CountsOk] at h
    omega
  | _ => simp [CacheState.state]

theorem CacheOk.of_wbAck (h : CacheOk s k) (hm : .wbAck k ∈ s.msgs) : (s.cache k).state = .MI := by
  have hle := unit_le_tally hm k .wbAck
  simp only [unit, if_true] at hle
  unfold CacheOk at h
  cases hc : s.cache k with
  | MI => rfl
  | _ =>
    rw [hc] at h
    simp only [CountsOk] at h
    omega

theorem CacheOk.of_wbNack (h : CacheOk s k) (hm : .wbNack k ∈ s.msgs) :
    (s.cache k).state = .MI ∨ (s.cache k).state = .II := by
  have hle := unit_le_tally hm k .wbNack
  simp only [unit, if_true] at hle
  unfold CacheOk at h
  cases hc : s.cache k with
  | MI => exact .inl rfl
  | II => exact .inr rfl
  | _ =>
    rw [hc] at h
    simp only [CountsOk] at h
    omega

theorem InvOk.of_inv (h : InvOk s k) (hc : CacheOk s k) (hm : .inv k ∈ s.msgs) :
    (s.cache k).state ≠ .MII ∧ (s.cache k).state ≠ .II := by
  have hgo : ¬ ((∃ b, s.cache k = .MII b) ∨ s.cache k = .II) := fun hs =>
    notMem_of_invTally (h.eq_zero hc hs) hm
  cases hk : s.cache k with
  | MII b => exact absurd (.inl ⟨b, hk⟩) hgo
  | II => exact absurd (.inr hk) hgo
  | _ => simp [CacheState.state]

variable {r : Option Nat}

theorem DirOk.of_fetched {b : β} (h : DirOk s) (hm : .fetched r b ∈ s.msgs) :
    s.dir = .IM ∨ s.dir = .ID := by
  obtain ⟨ms, hms⟩ := exists_cons_of_mem hm
  unfold DirOk at h
  simp only [hms] at h
  cases hd : s.dir with
  | IM => exact .inl rfl
  | ID => exact .inr rfl
  | _ =>
    rw [hd] at h
    cases r <;> simp [memUnit] at h

theorem DirOk.of_written (h : DirOk s) (hm : .written r ∈ s.msgs) :
    s.dir.isWriteback = true ∨ s.dir = .ID_W := by
  obtain ⟨ms, hms⟩ := exists_cons_of_mem hm
  unfold DirOk at h
  simp only [hms] at h
  cases hd : s.dir with
  | MI | M_DRDI | M_DWRI => exact .inl rfl
  | ID_W => exact .inr rfl
  | _ =>
    rw [hd] at h
    cases r <;> simp [memUnit] at h

end LineState

namespace L1Cache

variable {event : L1Event}

theorem transition_mandatory (st : L1State)
    (h : event = .Load ∨ event = .Ifetch ∨ event = .Store) : transition st event ≠ none := by
  rcases h with rfl | rfl | rfl
  all_goals cases st <;> simp [transition]

theorem requestOk_of_isForward {B : Nat} (l : L1Line B)
    (h : event.isForward = true) : RequestOk l event := by
  cases event with
  | Fwd_GETX | Inv | Writeback_Ack | Writeback_Nack => trivial
  | _ => cases h

end L1Cache

namespace System

variable {B : Nat} {P : Params} {s : System B}

/-- **No request is lost or duplicated.** The queues, caches and directories hold one token for each
request that a sequencer or a DMA controller has outstanding, and no others. -/
theorem requests_once (memory : Nat → DataBlock B) (ls : List (Label B)) :
    Outcome ((init memory).run P ls) (fun s =>
      (∀ i x, (s.requestTokens i x).card = (s.l1 i x).sequencer.readRequest.toList.length +
        (s.l1 i x).sequencer.writeRequest.toList.length) ∧
      ∀ k x, (s.tokens k x).card = (s.dma k x).request.toList.length) fun _ => True := by
  refine .intro (fun s hs => ⟨fun i x => ?_, fun k x => ?_⟩) fun _ _ => trivial
  · cases run_requestsOk hs i x with
    | free hseq h => simp [h, hseq.read, hseq.write]
    | busy hseq h =>
      rw [h, hseq.read, hseq.write]
      split_ifs <;> rfl
  · cases run_dmaOk hs k x with
    | free hr _ h | queued hr _ h | busy hr _ h => simp [h, hr]

inductive Uncovered (P : Params) (s : System B) : Label B → Fault → Prop
  /-- The write-back of a cache that is not the owner any more. -/
  | notOwner {d : Nat} {m : RequestMsg B} (hm : s.requests.head (requestPort d) = some m)
      (ht : m.type = .PUTX) (ho : m.requestor ∉ (s.dir m.addr).entry.owner)
      (hs : (s.dir m.addr).getState.isInvalidating = true) :
      Uncovered P s (.requestIn d)
        (.invalidTransition (.Directory (s.dir m.addr).getState .PUTX_NotOwner))
  /-- Another DMA request. -/
  | dmaRequest {d : Nat} {m : DMARequestMsg B}
      (hm : s.dmaRequests.head (dmaRequestPort d) = some m)
      (hs : (s.dir m.lineAddress).getState.isInvalidating = true) :
      Uncovered P s (.dmaRequestIn d) (.invalidTransition
        (.Directory (s.dir m.lineAddress).getState (dmaRequestEvent m.type)))
  /-- The TBE table of a controller is full. -/
  | tbeSize {l : Label B} (h : (∃ i, s.l1TBEAvail P i = false) ∨ (∃ d, s.dirTBEAvail P d = false) ∨
      ∃ k, s.dmaTBEAvail P k = false) : Uncovered P s l (.assertion .tbeSize)
  /-- A flush, which is none of the requests that a cache knows. -/
  | flush {i v : Nat} {m : RubyRequest} (hm : s.mandatory.head (mandatoryPort i) = some m)
      (ht : m.type = .FLUSH) : Uncovered P s (.mandatoryIn i v) (.assertion .rubyRequestType)

variable {i : Nat} {m : RequestMsg B} {event : L1Event}

theorem forwardIn_covered (hinv : s.Inv P) (hok : s.InvalidateOk)
    (hm : s.forwards.head (forwardPort i) = some m)
    (hev : L1Cache.forwardEvent m.type = .ok event) :
    L1Cache.transition (s.l1 i m.addr).getState event ≠ none := by
  obtain ⟨v, hv⟩ := hinv.line m.addr
  have hmem := mem_content_of_head hm
  obtain ⟨-, -, -, hreq⟩ := hinv.ok.msgs.forwards m hmem
  have hdest : m.destination = .L1Cache i := by simpa [forwardPort] using pos_of_head hm
  have hstate : ((line m.addr v s).cache i).state = (s.l1 i m.addr).getState := L1Line.state_abs _
  cases ht : m.type with
  | GETX =>
    rw [ht] at hev
    cases hev
    obtain ⟨j, hj⟩ := hreq ht
    have hfwd : .fwd i j ∈ (line m.addr v s).msgs :=
      mem_lineMsgs_of_forward hmem (by simp [lineForward, hdest, ht, hj, cache?])
    have hs := (hv.cache i).of_fwd hfwd
    rw [hstate] at hs
    cases hst : (s.l1 i m.addr).getState with
    | I | II => simp [hst] at hs
    | _ => simp [L1Cache.transition]
  | WB_ACK =>
    rw [ht] at hev
    cases hev
    have hack : .wbAck i ∈ (line m.addr v s).msgs :=
      mem_lineMsgs_of_forward hmem (by simp [lineForward, hdest, ht, cache?])
    rw [← hstate, (hv.cache i).of_wbAck hack]
    simp [L1Cache.transition]
  | WB_NACK =>
    rw [ht] at hev
    cases hev
    have hnack : .wbNack i ∈ (line m.addr v s).msgs :=
      mem_lineMsgs_of_forward hmem (by simp [lineForward, hdest, ht, cache?])
    rw [← hstate]
    rcases (hv.cache i).of_wbNack hnack with hs | hs
    all_goals
      rw [hs]
      simp [L1Cache.transition]
  | INV =>
    rw [ht] at hev
    cases hev
    have hi : .inv i ∈ (line m.addr v s).msgs :=
      mem_lineMsgs_of_forward hmem (by simp [lineForward, hdest, ht, cache?])
    have hs := (hok.line i m.addr v).of_inv (hv.cache i) hi
    rw [hstate] at hs
    cases hst : (s.l1 i m.addr).getState with
    | MII | II => simp [hst] at hs
    | _ => simp [L1Cache.transition]
  | PUTX =>
    rw [ht] at hev
    cases hev

theorem responseIn_state (hinv : s.Inv P) {m : ResponseMsg B}
    (hm : s.responses.head (responsePort i) = some m) :
    (s.l1 i m.addr).getState = .IS ∨ (s.l1 i m.addr).getState = .IM := by
  obtain ⟨v, hv⟩ := hinv.line m.addr
  have hdest : m.destination = .L1Cache i := by simpa [responsePort] using pos_of_head hm
  have hdata : .data i m.dataBlk ∈ (line m.addr v s).msgs :=
    mem_lineMsgs_of_response (mem_content_of_head hm)
      (by simp [lineResponse, hdest, cache?])
  rw [← L1Line.state_abs]
  refine (LineState.cache_of_data (hv.cache i) hdata).imp (fun h => ?_) fun h => ?_
  all_goals
    rw [show (s.l1 i m.addr).abs = _ from h]
    rfl

theorem responseIn_requestOk (hreq : ∀ i x, Ruby.RequestsOk (s.l1 i x).sequencer (s.requestTokens i x))
    {x : Nat} (hs : (s.l1 i x).getState = .IS ∨ (s.l1 i x).getState = .IM) :
    L1Cache.RequestOk (s.l1 i x) .Data := by
  have hmem : ∀ t, (s.l1 i x).getState.tokens = {t} → t ∈ s.requestTokens i x := by
    intro t ht
    unfold requestTokens
    rw [ht]
    exact mem_add.mpr (.inr (mem_singleton_self t))
  rcases hs with hs | hs
  · have hread := (hreq i x).load (hmem (.fetching false) (by rw [hs]; rfl)) (.inl rfl)
    simp only [L1Cache.RequestOk, hs]
    exact hread
  · have hwrite := (hreq i x).store (hmem (.fetching true) (by rw [hs]; rfl)) (.inl rfl)
    simp only [L1Cache.RequestOk, hs]
    exact hwrite

theorem queued_mem_requestTokens {m : RubyRequest}
    (hm : s.mandatory.head (mandatoryPort i) = some m) :
    .queued m.type ∈ s.requestTokens i m.lineAddress := by
  have hport : m.cache = i := by simpa [mandatoryPort] using pos_of_head hm
  refine mem_add.mpr (.inl ((mem_filterMap ..).mpr ⟨m, ?_, ?_⟩))
  · exact mem_content_of_head hm
  · exact if_pos ⟨hport, rfl⟩

theorem mandatoryIn_requestOk
    (hreq : ∀ i x, Ruby.RequestsOk (s.l1 i x).sequencer (s.requestTokens i x))
    {m : RubyRequest} (hm : s.mandatory.head (mandatoryPort i) = some m)
    (hev : L1Cache.mandatory_request_type_to_event m.type = .ok event) :
    L1Cache.RequestOk (s.l1 i m.lineAddress) event := by
  have hmem := queued_mem_requestTokens hm
  cases ht : m.type with
  | LD | IFETCH =>
    rw [ht] at hev hmem
    cases hev
    exact (hreq i m.lineAddress).load hmem (.inr ⟨_, rfl, rfl⟩)
  | ST | ATOMIC =>
    rw [ht] at hev hmem
    cases hev
    exact (hreq i m.lineAddress).store hmem (.inr ⟨_, rfl, rfl⟩)
  | _ =>
    rw [ht] at hev
    cases hev

variable {d : Nat}

/-- A directory has a transition for every request but a stale write-back while it waits for the
owner's. -/
theorem requestIn_covered (hinv : s.Inv P) {event : DirEvent}
    (hm : s.requests.head (requestPort d) = some m)
    (hev : requestEvent m (s.dir m.addr) = .ok event)
    (ht : transition (s.dir m.addr).getState event = none) :
    Uncovered P s (.requestIn d)
      (.invalidTransition (.Directory (s.dir m.addr).getState event)) := by
  have hdir := hinv.ok.dir m.addr
  rcases (hinv.ok.msgs.requests m (mem_content_of_head hm)).1 with htype | htype
  · simp only [requestEvent, htype] at hev
    cases hev
    cases hst : (s.dir m.addr).getState <;> simp [hst, transition] at ht
  · by_cases ho : m.requestor ∈ (s.dir m.addr).entry.owner
    · have hput : event = .PUTX := by
        simp only [requestEvent, htype, if_pos ho] at hev
        cases hev
        rfl
      subst hput
      have howner := hdir.owner
      rw [← hdir.getState_eq] at howner
      cases hst : (s.dir m.addr).getState with
      | I | M_DRDI | M_DWRI =>
        simp only [hst, DirState.hasOwner, Bool.false_eq_true, if_false] at howner
        simp [howner] at ho
      | _ => simp [hst, transition] at ht
    · have hput : event = .PUTX_NotOwner := by
        simp only [requestEvent, htype, if_neg ho] at hev
        cases hev
        rfl
      subst hput
      refine .notOwner hm htype ho ?_
      cases hst : (s.dir m.addr).getState with
      | M_DRD | M_DWR | M_DRDI | M_DWRI => rfl
      | _ => simp [hst, transition] at ht

theorem memoryIn_covered (hinv : s.Inv P) {m : MemoryMsg B}
    (hm : s.memoryResponses.head (memoryPort d) = some m) :
    transition (s.dir m.addr).getState (memoryEvent m.type) ≠ none := by
  obtain ⟨v, hv⟩ := hinv.line m.addr
  have hmem := mem_content_of_head hm
  cases ht : m.type with
  | MEMORY_READ =>
    have hfetched : .fetched m.originalRequestor.cache? m.dataBlk ∈ (line m.addr v s).msgs :=
      mem_lineMsgs_of_memory hmem (by simp [lineMemoryMsg, ht])
    rcases hv.dir.of_fetched hfetched with hs | hs
    all_goals
      rw [show (s.dir m.addr).getState = _ from hs]
      simp [memoryEvent, transition]
  | MEMORY_WB =>
    have hwritten : .written m.originalRequestor.cache? ∈ (line m.addr v s).msgs :=
      mem_lineMsgs_of_memory hmem (by simp [lineMemoryMsg, ht])
    have hs : (s.dir m.addr).getState.isWriteback = true ∨ (s.dir m.addr).getState = .ID_W :=
      hv.dir.of_written hwritten
    cases hst : (s.dir m.addr).getState with
    | MI | M_DRDI | M_DWRI | ID_W => simp [memoryEvent, transition]
    | _ => simp [hst, DirState.isWriteback] at hs

theorem dmaResponseIn_covered (hdma : ∀ k x, DMAOk k x (s.dma k x) (s.tokens k x)) {k : Nat}
    {m : DMAResponseMsg B} (hm : s.dmaResponses.head (dmaResponsePort k) = some m) :
    DMA.transition (s.dma k m.lineAddress).getState (DMA.responseEvent m.type) ≠ none ∧
      DMA.RequestOk (s.dma k m.lineAddress) (DMA.responseEvent m.type) := by
  have hdest : m.destination = .DMA k := by simpa [dmaResponsePort] using pos_of_head hm
  have hmem := answered_mem_tokens (mem_content_of_head hm) hdest rfl
  obtain ⟨ts, hts⟩ := exists_cons_of_mem hmem
  have hok := hdma k m.lineAddress
  rw [hts] at hok
  obtain ⟨-, r, hr, hs, hfits⟩ := hok.of_cons (by simp)
  have htype : m.type = if r.pkt.write = true then .ACK else .DATA := hfits
  rw [hs, htype]
  unfold DMAPacket.busy
  cases hw : r.pkt.write with
  | true => exact ⟨by simp [DMA.responseEvent, DMA.transition], r, hr⟩
  | false => exact ⟨by simp [DMA.responseEvent, DMA.transition], r, hr, hw⟩

/-- On a network that keeps the order between machines, every event has a transition and no
assertion fails, except in the cases of `Uncovered`. -/
theorem fault_uncovered (hord : P.ordered = true) {memory : Nat → DataBlock B}
    {ls : List (Label B)} (hrun : (init memory).run P ls = .ok s) {l : Label B} {e : Fault}
    (herr : s.exec P l = .error e) : Uncovered P s l e := by
  have hinv := run_inv hrun
  have hreq := run_requestsOk hrun
  cases (exec_outcome hinv.ok l).of_error herr with
  | forwardIn hm hev he =>
    have hfwd := L1Cache.isForward_of_forwardEvent hev
    cases he with
    | invalidTransition ht =>
      exact absurd ht (forwardIn_covered hinv (run_invalidateOk hord hrun) hm hev)
    | tbeSize h => exact .tbeSize (.inl ⟨_, h⟩)
    | cacheAvail hev' => rcases hev' with rfl | rfl | rfl <;> cases hfwd
    | request h => exact absurd (L1Cache.requestOk_of_isForward _ hfwd) h
  | responseIn hm he =>
    have hs := responseIn_state hinv hm
    cases he with
    | invalidTransition ht =>
      rcases hs with hs | hs
      all_goals
        rw [hs] at ht
        cases ht
    | tbeSize h => exact .tbeSize (.inl ⟨_, h⟩)
    | cacheAvail hev => simp at hev
    | request h => exact absurd (responseIn_requestOk hreq hs) h
  | requestType hm he =>
    obtain ⟨k, hk⟩ := (hreq _ _).secondaryType (queued_mem_requestTokens hm)
    rw [hk] at he
    cases k with
    | flush =>
      cases he
      exact .flush hm hk
    | _ => cases he
  | mandatoryIn hm hav hev he =>
    cases he with
    | invalidTransition ht =>
      exact absurd ht (L1Cache.transition_mandatory _ (L1Cache.event_of_mandatory hev))
    | tbeSize h => exact .tbeSize (.inl ⟨_, h⟩)
    | cacheAvail _ hl h => exact absurd ⟨hl, h⟩ hav
    | request h => exact absurd (mandatoryIn_requestOk hreq hm hev) h
  | @replacement i v m _ hm hv he =>
    cases he with
    | invalidTransition ht =>
      cases hst : (s.l1 i v).getState <;> simp [hst, L1Cache.transition] at ht
    | tbeSize h => exact .tbeSize (.inl ⟨_, h⟩)
    | cacheAvail hev => simp at hev
    | request h => exact absurd trivial h
  | requestIn hm hev he =>
    cases he with
    | invalidTransition ht => exact requestIn_covered hinv hm hev ht
    | tbeSize h => exact .tbeSize (.inr (.inl ⟨_, h⟩))
  | @dmaRequestIn d m _ hm he =>
    cases he with
    | invalidTransition ht =>
      refine .dmaRequest hm ?_
      cases hst : (s.dir m.lineAddress).getState with
      | M_DRD | M_DWR | M_DRDI | M_DWRI => rfl
      | _ =>
        cases htype : m.type <;>
          simp [hst, htype, dmaRequestEvent, transition] at ht
    | tbeSize h => exact .tbeSize (.inr (.inl ⟨_, h⟩))
  | memoryIn hm he =>
    cases he with
    | invalidTransition ht => exact absurd ht (memoryIn_covered hinv hm)
    | tbeSize h => exact .tbeSize (.inr (.inl ⟨_, h⟩))
  | @dmaMandatoryIn k m _ hm he =>
    cases he with
    | invalidTransition ht =>
      cases hw : m.write <;> cases hst : (s.dma k m.lineAddress).getState <;>
        simp [hst, hw, DMA.requestEvent, DMA.transition] at ht
    | tbeSize h => exact .tbeSize (.inr (.inr ⟨_, h⟩))
    | request h =>
      cases hw : m.write <;> simp [hw, DMA.requestEvent, DMA.RequestOk] at h
  | dmaResponseIn hm he =>
    have hcov := dmaResponseIn_covered (run_dmaOk hrun) hm
    cases he with
    | invalidTransition ht => exact absurd ht hcov.1
    | tbeSize h => exact .tbeSize (.inr (.inr ⟨_, h⟩))
    | request h => exact absurd hcov.2 h

/-- A cache replaces a line now owned by another, and a DMA read comes before its write-back. -/
theorem fault_uncovered_notOwner :
    let P : Params := ⟨2, fun _ => 0, fun _ _ => 0, fun _ => 1, 4, 2, 1, true⟩
    let load : Ruby.Packet 1 := ⟨.read, 0, [0], by decide⟩
    let pkt : DMAPacket 1 := ⟨false, 0, [0], by decide⟩
    ∃ s, (init fun _ => DataBlock.clear).run P
        (missSteps 0 0 0 load ++ (missSteps 1 0 0 load).take 5 ++ hitSteps 0 1 load ++
          dmaSteps 0 0 0 pkt ++ [.deliver .request 0]) = .ok s ∧
      Uncovered P s (.requestIn 0) (.invalidTransition (.Directory .M_DRD .PUTX_NotOwner)) := by
  intro P load pkt
  refine exists_ok_of_toOption (fun s => error? (s.exec P (.requestIn 0)))
    (some (.invalidTransition (.Directory .M_DRD .PUTX_NotOwner))) (by decide +kernel) ?_
  intro s hs herr
  exact fault_uncovered rfl hs (eq_error_of_error? herr)

/-- Two DMA controllers read a line that a cache has: there is no transition for the second request.
-/
theorem dmaRead_uncovered :
    let P : Params := ⟨1, fun _ => 0, fun _ _ => 0, fun _ => 1, 4, 1, 1, true⟩
    let load : Ruby.Packet 1 := ⟨.read, 0, [0], by decide⟩
    let pkt : DMAPacket 1 := ⟨false, 0, [0], by decide⟩
    ∃ s, (init fun _ => DataBlock.clear).run P
        (missSteps 0 0 0 load ++ dmaSteps 0 0 0 pkt ++ (dmaSteps 1 0 0 pkt).dropLast) = .ok s ∧
      s.exec P (.dmaRequestIn 0) =
        .error (.invalidTransition (.Directory .M_DRD .DMA_READ)) := by
  intro P load pkt
  refine exists_ok_of_toOption (fun s => error? (s.exec P (.dmaRequestIn 0)))
    (some (.invalidTransition (.Directory .M_DRD .DMA_READ))) (by decide +kernel) ?_
  exact fun s _ herr => eq_error_of_error? herr

end System

end NocSwap.MIExample
