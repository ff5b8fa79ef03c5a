import NocSwap.Protocol.MI.Correct.DMA
import NocSwap.Protocol.MI.Correct.Directory
import NocSwap.Protocol.MI.Correct.L1Cache
import NocSwap.Protocol.MI.System

/-!
# MI_example: what a step does
-/

namespace NocSwap.MIExample

open Ruby (DataBlock Packet)

variable {B : Nat}

def RequestMsg.IsRequest (P : Params) (m : RequestMsg B) : Prop :=
  (m.type = .GETX ∨ m.type = .PUTX) ∧ m.destination = .Directory (P.home m.addr) ∧
    ∃ i, m.requestor = .L1Cache i ∧ m.source = .L1Cache i

def RequestMsg.IsForward (P : Params) (m : RequestMsg B) : Prop :=
  m.type ≠ .PUTX ∧ m.source = .Directory (P.home m.addr) ∧ (∃ i, m.destination = .L1Cache i) ∧
    (m.type = .GETX → ∃ j, m.requestor = .L1Cache j)

namespace System

structure MsgsOk (P : Params) (s : System B) : Prop where
  requests : ∀ m ∈ s.requests.content, m.IsRequest P
  forwards : ∀ m ∈ s.forwards.content, m.IsForward P
  responses : ∀ m ∈ s.responses.content, ∃ j, m.destination = .L1Cache j
  dmaRequests : ∀ m ∈ s.dmaRequests.content,
    m.destination = .Directory (P.home m.lineAddress) ∧ ∃ k, m.requestor = .DMA k
  memoryRequests : ∀ r ∈ s.memoryRequests, r.directory = P.home r.addr
  memoryResponses : ∀ m ∈ s.memoryResponses.content, m.directory = P.home m.addr

structure Ok (P : Params) (s : System B) : Prop where
  l1 : ∀ i x, (s.l1 i x).Ok
  dir : ∀ x, (s.dir x).Ok
  dma : ∀ k x, (s.dma k x).Ok
  msgs : s.MsgsOk P

section Inversion

variable (P : Params) (s : System B)

def l1Context (i x : Nat) (m : L1InMsg B) : L1Context B where
  machineID := i
  address := x
  home := P.home x
  inMsg := m
  cacheAvail := s.cacheAvail P i x
  tbeAvail := s.l1TBEAvail P i

def dirContext (d x : Nat) (m : DirInMsg B) : DirContext B where
  machineID := d
  address := x
  inMsg := m
  tbeAvail := s.dirTBEAvail P d

def dmaContext (k x : Nat) (m : DMAInMsg B) : DMAContext B where
  machineID := k
  address := x
  home := P.home x
  inMsg := m
  tbeAvail := s.dmaTBEAvail P k

inductive StepTo : Label B → System B → Prop
  /-- A step that is not possible, or a stall. -/
  | idle (l : Label B) : StepTo l s
  | makeRequest {i x : Nat} {pkt : Packet B} {seq : Ruby.SequencerLine B} (hx : x < P.numLines)
      (hseq : (s.l1 i x).sequencer.insertRequest pkt = (.Ready, seq)) :
      StepTo (.makeRequest i x pkt)
        { s.setL1 i x { s.l1 i x with sequencer := seq } with
          mandatory := s.mandatory.send [⟨i, x, pkt.kind.secondaryType⟩] }
  | delayForward {i : Nat} {m : RequestMsg B} (hm : s.forwards.head (forwardPort i) = some m)
      (hb : (s.l1 i m.addr).sequencer.blocked = true) :
      StepTo (.forwardIn i) { s with forwards := s.forwards.delayHead (forwardPort i) }
  | delayResponse {i : Nat} {m : ResponseMsg B} (hm : s.responses.head (responsePort i) = some m)
      (hb : (s.l1 i m.addr).sequencer.blocked = true) :
      StepTo (.responseIn i) { s with responses := s.responses.delayHead (responsePort i) }
  | forwardIn {i : Nat} {m : RequestMsg B} {event : L1Event} {w : L1Work B}
      (hm : s.forwards.head (forwardPort i) = some m)
      (hb : (s.l1 i m.addr).sequencer.blocked = false)
      (hev : L1Cache.forwardEvent m.type = .ok event)
      (hw : L1Cache.Step (s.l1Context P i m.addr (.forward m)) (s.l1 i m.addr) event w) :
      StepTo (.forwardIn i) (s.applyL1 i m.addr w)
  | responseIn {i : Nat} {m : ResponseMsg B} {w : L1Work B}
      (hm : s.responses.head (responsePort i) = some m)
      (hb : (s.l1 i m.addr).sequencer.blocked = false)
      (hw : L1Cache.Step (s.l1Context P i m.addr (.response m)) (s.l1 i m.addr) .Data w) :
      StepTo (.responseIn i) (s.applyL1 i m.addr w)
  | mandatoryIn {i v : Nat} {m : RubyRequest} {event : L1Event} {w : L1Work B}
      (hm : s.mandatory.head (mandatoryPort i) = some m)
      (hev : L1Cache.mandatory_request_type_to_event m.type = .ok event)
      (hw : L1Cache.Step (s.l1Context P i m.lineAddress (.mandatory m)) (s.l1 i m.lineAddress)
        event w) :
      StepTo (.mandatoryIn i v) (s.applyL1 i m.lineAddress w)
  | replacement {i v : Nat} {m : RubyRequest} {w : L1Work B}
      (hm : s.mandatory.head (mandatoryPort i) = some m)
      (he : (s.l1 i m.lineAddress).cacheEntry = none)
      (hav : s.cacheAvail P i m.lineAddress = false) (hv : s.IsVictim P i m.lineAddress v)
      (hw : L1Cache.Step (s.l1Context P i v (.mandatory m)) (s.l1 i v) .Replacement w) :
      StepTo (.mandatoryIn i v) (s.applyL1 i v w)
  | requestIn {d : Nat} {m : RequestMsg B} {event : DirEvent} {w : DirWork B}
      (hm : s.requests.head (requestPort d) = some m)
      (hev : Directory.requestEvent m (s.dir m.addr) = .ok event)
      (hw : Directory.Step (s.dirContext P d m.addr (.request m)) (s.dir m.addr) event w) :
      StepTo (.requestIn d) (s.applyDir d m.addr w)
  | dmaRequestIn {d : Nat} {m : DMARequestMsg B} {w : DirWork B}
      (hm : s.dmaRequests.head (dmaRequestPort d) = some m)
      (hw : Directory.Step (s.dirContext P d m.lineAddress (.dmaRequest m)) (s.dir m.lineAddress)
        (Directory.dmaRequestEvent m.type) w) :
      StepTo (.dmaRequestIn d) (s.applyDir d m.lineAddress w)
  | memoryIn {d : Nat} {m : MemoryMsg B} {w : DirWork B}
      (hm : s.memoryResponses.head (memoryPort d) = some m)
      (hw : Directory.Step (s.dirContext P d m.addr (.memory m)) (s.dir m.addr)
        (Directory.memoryEvent m.type) w) :
      StepTo (.memoryIn d) (s.applyDir d m.addr w)
  | makeDMARequest {k x : Nat} {pkt : DMAPacket B} (hx : x < P.numLines)
      (hr : (s.dma k x).request = none) :
      StepTo (.makeDMARequest k x pkt)
        { s.setDMA k x { s.dma k x with request := some ⟨pkt, 0, pkt.data.length⟩ } with
          dmaMandatory := s.dmaMandatory.send [DMALine.requestMsg k x pkt] }
  | dmaMandatoryIn {k : Nat} {m : SequencerMsg B} {w : DMAWork B}
      (hm : s.dmaMandatory.head (dmaMandatoryPort k) = some m)
      (hw : DMA.Step (s.dmaContext P k m.lineAddress (.request m)) (s.dma k m.lineAddress)
        (DMA.requestEvent m) w) :
      StepTo (.dmaMandatoryIn k) (s.applyDMA k m.lineAddress w)
  | dmaResponseIn {k : Nat} {m : DMAResponseMsg B} {w : DMAWork B}
      (hm : s.dmaResponses.head (dmaResponsePort k) = some m)
      (hw : DMA.Step (s.dmaContext P k m.lineAddress (.response m)) (s.dma k m.lineAddress)
        (DMA.responseEvent m.type) w) :
      StepTo (.dmaResponseIn k) (s.applyDMA k m.lineAddress w)
  | deliver (v : VNet) (n : Nat) : StepTo (.deliver v n) (s.deliver P v n)
  | requeue (v : VNet) (n : Nat) : StepTo (.requeue v n) (s.requeue v n)
  | serveRead {n : Nat} {r : MemoryRequest} (hr : s.memoryRequests[n]? = some r)
      (hw : r.write = none) :
      StepTo (.serve n)
        { s with
          memoryRequests := s.memoryRequests.eraseIdx n
          memoryResponses := s.memoryResponses.send
            [⟨r.directory, r.addr, .MEMORY_READ, r.originalRequestor, s.memory r.addr⟩] }
  | serveWrite {n : Nat} {r : MemoryRequest} {data : List UInt8}
      (hr : s.memoryRequests[n]? = some r) (hw : r.write = some data) :
      StepTo (.serve n)
        { s with
          memoryRequests := s.memoryRequests.eraseIdx n
          memory := Function.update s.memory r.addr ((s.memory r.addr).setData data 0)
          memoryResponses := s.memoryResponses.send
            [⟨r.directory, r.addr, .MEMORY_WB, r.originalRequestor, DataBlock.clear⟩]
          log := s.log ++
            [.memoryWrite r.addr (s.dir r.addr).dmaWriter (s.memory r.addr)
              ((s.memory r.addr).setData data 0)] }

inductive FailsAt : Label B → Fault → Prop
  | forwardIn {i : Nat} {m : RequestMsg B} {event : L1Event} {e : Fault}
      (hm : s.forwards.head (forwardPort i) = some m)
      (hev : L1Cache.forwardEvent m.type = .ok event)
      (he : L1Cache.Fails (s.l1Context P i m.addr (.forward m)) (s.l1 i m.addr) event e) :
      FailsAt (.forwardIn i) e
  | responseIn {i : Nat} {m : ResponseMsg B} {e : Fault}
      (hm : s.responses.head (responsePort i) = some m)
      (he : L1Cache.Fails (s.l1Context P i m.addr (.response m)) (s.l1 i m.addr) .Data e) :
      FailsAt (.responseIn i) e
  | requestType {i v : Nat} {m : RubyRequest} {e : Fault}
      (hm : s.mandatory.head (mandatoryPort i) = some m)
      (he : L1Cache.mandatory_request_type_to_event m.type = .error e) :
      FailsAt (.mandatoryIn i v) e
  | mandatoryIn {i v : Nat} {m : RubyRequest} {event : L1Event} {e : Fault}
      (hm : s.mandatory.head (mandatoryPort i) = some m)
      (hav : ¬ ((s.l1 i m.lineAddress).cacheEntry = none ∧ s.cacheAvail P i m.lineAddress = false))
      (hev : L1Cache.mandatory_request_type_to_event m.type = .ok event)
      (he : L1Cache.Fails (s.l1Context P i m.lineAddress (.mandatory m)) (s.l1 i m.lineAddress)
        event e) :
      FailsAt (.mandatoryIn i v) e
  | replacement {i v : Nat} {m : RubyRequest} {e : Fault}
      (hm : s.mandatory.head (mandatoryPort i) = some m) (hv : s.IsVictim P i m.lineAddress v)
      (he : L1Cache.Fails (s.l1Context P i v (.mandatory m)) (s.l1 i v) .Replacement e) :
      FailsAt (.mandatoryIn i v) e
  | requestIn {d : Nat} {m : RequestMsg B} {event : DirEvent} {e : Fault}
      (hm : s.requests.head (requestPort d) = some m)
      (hev : Directory.requestEvent m (s.dir m.addr) = .ok event)
      (he : Directory.Fails (s.dirContext P d m.addr (.request m)) (s.dir m.addr) event e) :
      FailsAt (.requestIn d) e
  | dmaRequestIn {d : Nat} {m : DMARequestMsg B} {e : Fault}
      (hm : s.dmaRequests.head (dmaRequestPort d) = some m)
      (he : Directory.Fails (s.dirContext P d m.lineAddress (.dmaRequest m)) (s.dir m.lineAddress)
        (Directory.dmaRequestEvent m.type) e) :
      FailsAt (.dmaRequestIn d) e
  | memoryIn {d : Nat} {m : MemoryMsg B} {e : Fault}
      (hm : s.memoryResponses.head (memoryPort d) = some m)
      (he : Directory.Fails (s.dirContext P d m.addr (.memory m)) (s.dir m.addr)
        (Directory.memoryEvent m.type) e) :
      FailsAt (.memoryIn d) e
  | dmaMandatoryIn {k : Nat} {m : SequencerMsg B} {e : Fault}
      (hm : s.dmaMandatory.head (dmaMandatoryPort k) = some m)
      (he : DMA.Fails (s.dmaContext P k m.lineAddress (.request m)) (s.dma k m.lineAddress)
        (DMA.requestEvent m) e) :
      FailsAt (.dmaMandatoryIn k) e
  | dmaResponseIn {k : Nat} {m : DMAResponseMsg B} {e : Fault}
      (hm : s.dmaResponses.head (dmaResponsePort k) = some m)
      (he : DMA.Fails (s.dmaContext P k m.lineAddress (.response m)) (s.dma k m.lineAddress)
        (DMA.responseEvent m.type) e) :
      FailsAt (.dmaResponseIn k) e

end Inversion

section Exec

variable {P : Params} {s : System B}

variable {x : Nat} {Q : System B → Prop} {E : Fault → Prop}

theorem triggerL1_outcome {i : Nat} {event : L1Event} {m : L1InMsg B} (h : (s.l1 i x).ShapeOk)
    (hm : L1Cache.InMsgOk m event) (hidle : Q s)
    (hQ : ∀ w, L1Cache.Step (s.l1Context P i x m) (s.l1 i x) event w → Q (s.applyL1 i x w))
    (hE : ∀ e, L1Cache.Fails (s.l1Context P i x m) (s.l1 i x) event e → E e) :
    Outcome (s.triggerL1 P i x event m) Q E := by
  unfold triggerL1
  rw [outcome_bind]
  refine (L1Cache.doTransition_outcome h hm).mono (fun o ho => ?_) hE
  cases o with
  | none => exact hidle
  | some w => exact hQ w (ho w rfl)

theorem triggerDir_outcome {d : Nat} {event : DirEvent} {m : DirInMsg B} (h : (s.dir x).Ok)
    (hm : Directory.InMsgOk m event)
    (hQ : ∀ w, Directory.Step (s.dirContext P d x m) (s.dir x) event w → Q (s.applyDir d x w))
    (hE : ∀ e, Directory.Fails (s.dirContext P d x m) (s.dir x) event e → E e) :
    Outcome (s.triggerDir P d x event m) Q E := by
  unfold triggerDir
  rw [outcome_bind]
  exact (Directory.doTransition_outcome h hm).mono hQ hE

theorem triggerDMA_outcome {k : Nat} {event : DMAEvent} {m : DMAInMsg B} (h : (s.dma k x).Ok)
    (hm : DMA.InMsgOk m event)
    (hQ : ∀ w, DMA.Step (s.dmaContext P k x m) (s.dma k x) event w → Q (s.applyDMA k x w))
    (hE : ∀ e, DMA.Fails (s.dmaContext P k x m) (s.dma k x) event e → E e) :
    Outcome (s.triggerDMA P k x event m) Q E := by
  unfold triggerDMA
  rw [outcome_bind]
  exact (DMA.doTransition_outcome h hm).mono hQ hE

section

variable (h : s.Ok P)
include h

theorem forwardIn_outcome (i : Nat) :
    Outcome (s.forwardIn P i) (StepTo P s (.forwardIn i)) (FailsAt P s (.forwardIn i)) := by
  unfold forwardIn
  cases hm : s.forwards.head (forwardPort i) with
  | none => exact .idle _
  | some m =>
    simp only
    split
    case isTrue hb => exact .delayForward hm hb
    case isFalse hb =>
      have hb' : (s.l1 i m.addr).sequencer.blocked = false := Bool.not_eq_true _ ▸ hb
      have htype := (h.msgs.forwards m (MsgChannel.mem_content_of_head hm)).1
      have hgo : ∀ event, L1Cache.forwardEvent m.type = .ok event →
          L1Cache.InMsgOk (.forward m) event →
          Outcome (s.triggerL1 P i m.addr event (.forward m)) (StepTo P s (.forwardIn i))
            (FailsAt P s (.forwardIn i)) := fun event hev hin =>
        triggerL1_outcome (h.l1 i m.addr).shape hin (.idle _) (fun w hw => .forwardIn hm hb' hev hw)
          fun e he => .forwardIn hm hev he
      cases ht : m.type with
      | GETX => exact hgo .Fwd_GETX (by rw [ht]; rfl) ⟨m, rfl⟩
      | WB_ACK => exact hgo .Writeback_Ack (by rw [ht]; rfl) trivial
      | WB_NACK => exact hgo .Writeback_Nack (by rw [ht]; rfl) trivial
      | INV => exact hgo .Inv (by rw [ht]; rfl) trivial
      | PUTX => exact absurd ht htype

theorem responseIn_outcome (i : Nat) :
    Outcome (s.responseIn P i) (StepTo P s (.responseIn i)) (FailsAt P s (.responseIn i)) := by
  unfold responseIn
  cases hm : s.responses.head (responsePort i) with
  | none => exact .idle _
  | some m =>
    simp only
    split
    case isTrue hb => exact .delayResponse hm hb
    case isFalse hb =>
      have hb' : (s.l1 i m.addr).sequencer.blocked = false := Bool.not_eq_true _ ▸ hb
      have hin : L1Cache.InMsgOk (.response m) .Data := ⟨m, rfl⟩
      exact triggerL1_outcome (h.l1 i m.addr).shape hin (.idle _)
        (fun w hw => .responseIn hm hb' hw) fun e he => .responseIn hm he

theorem mandatoryIn_outcome (i v : Nat) :
    Outcome (s.mandatoryIn P i v) (StepTo P s (.mandatoryIn i v))
      (FailsAt P s (.mandatoryIn i v)) := by
  unfold mandatoryIn
  cases hm : s.mandatory.head (mandatoryPort i) with
  | none => exact .idle _
  | some m =>
    simp only
    split
    case isTrue hav =>
      split
      case isTrue hv =>
        have he : (s.l1 i m.lineAddress).cacheEntry = none := by simpa using hav.1
        have hin : L1Cache.InMsgOk (.mandatory m : L1InMsg B) .Replacement := trivial
        exact triggerL1_outcome (h.l1 i v).shape hin (.idle _)
          (fun w hw => .replacement hm he hav.2 hv hw) fun e he => .replacement hm hv he
      case isFalse => exact .idle _
    case isFalse hav =>
      rw [Option.isNone_iff_eq_none] at hav
      rw [outcome_bind]
      refine Outcome.intro (fun event hev => ?_) fun e he => .requestType hm he
      refine triggerL1_outcome (h.l1 i m.lineAddress).shape ?_ (.idle _)
        (fun w hw => .mandatoryIn hm hev hw) fun e he => .mandatoryIn hm hav hev he
      cases ht : m.type with
      | LD | IFETCH | ST | ATOMIC =>
        rw [ht] at hev
        cases hev
        trivial
      | _ =>
        rw [ht] at hev
        cases hev

theorem requestIn_outcome (d : Nat) :
    Outcome (s.requestIn P d) (StepTo P s (.requestIn d)) (FailsAt P s (.requestIn d)) := by
  unfold requestIn
  cases hm : s.requests.head (requestPort d) with
  | none => exact .idle _
  | some m =>
    have htype := (h.msgs.requests m (MsgChannel.mem_content_of_head hm)).1
    have hev : ∃ event, Directory.requestEvent m (s.dir m.addr) = .ok event ∧
        Directory.InMsgOk (.request m) event := by
      unfold Directory.requestEvent
      rcases htype with ht | ht
      · rw [ht]
        exact ⟨.GETX, rfl, m, rfl⟩
      · rw [ht]
        by_cases ho : m.requestor ∈ (s.dir m.addr).entry.owner
        · exact ⟨.PUTX, if_pos ho, m, rfl⟩
        · exact ⟨.PUTX_NotOwner, if_neg ho, m, rfl⟩
    obtain ⟨event, hev, hin⟩ := hev
    simp only
    rw [hev]
    exact triggerDir_outcome (h.dir m.addr) hin (fun w hw => .requestIn hm hev hw)
      fun e he => .requestIn hm hev he

theorem dmaRequestIn_outcome (d : Nat) : Outcome (s.dmaRequestIn P d) (StepTo P s (.dmaRequestIn d))
      (FailsAt P s (.dmaRequestIn d)) := by
  unfold dmaRequestIn
  cases hm : s.dmaRequests.head (dmaRequestPort d) with
  | none => exact .idle _
  | some m =>
    refine triggerDir_outcome (h.dir m.lineAddress) ?_ (fun w hw => .dmaRequestIn hm hw)
      fun e he => .dmaRequestIn hm he
    cases m.type <;> exact ⟨m, rfl⟩

theorem memoryIn_outcome (d : Nat) :
    Outcome (s.memoryIn P d) (StepTo P s (.memoryIn d)) (FailsAt P s (.memoryIn d)) := by
  unfold memoryIn
  cases hm : s.memoryResponses.head (memoryPort d) with
  | none => exact .idle _
  | some m =>
    refine triggerDir_outcome (h.dir m.addr) ?_ (fun w hw => .memoryIn hm hw)
      fun e he => .memoryIn hm he
    cases m.type <;> exact ⟨m, rfl⟩

theorem dmaMandatoryIn_outcome (k : Nat) :
    Outcome (s.dmaMandatoryIn P k) (StepTo P s (.dmaMandatoryIn k))
      (FailsAt P s (.dmaMandatoryIn k)) := by
  unfold dmaMandatoryIn
  cases hm : s.dmaMandatory.head (dmaMandatoryPort k) with
  | none => exact .idle _
  | some m =>
    refine triggerDMA_outcome (h.dma k m.lineAddress) ?_ (fun w hw => .dmaMandatoryIn hm hw)
      fun e he => .dmaMandatoryIn hm he
    unfold DMA.requestEvent
    split <;> exact ⟨m, rfl⟩

theorem dmaResponseIn_outcome (k : Nat) :
    Outcome (s.dmaResponseIn P k) (StepTo P s (.dmaResponseIn k))
      (FailsAt P s (.dmaResponseIn k)) := by
  unfold dmaResponseIn
  cases hm : s.dmaResponses.head (dmaResponsePort k) with
  | none => exact .idle _
  | some m =>
    refine triggerDMA_outcome (h.dma k m.lineAddress) ?_ (fun w hw => .dmaResponseIn hm hw)
      fun e he => .dmaResponseIn hm he
    cases m.type <;> exact ⟨m, rfl⟩

end

theorem makeRequest_stepTo (i x : Nat) (pkt : Packet B) :
    StepTo P s (.makeRequest i x pkt) (s.makeRequest P i x pkt) := by
  unfold makeRequest
  split
  case isTrue hx =>
    split
    case h_1 seq hseq => exact .makeRequest hx.1 hseq
    case h_2 => exact .idle _
  case isFalse => exact .idle _

theorem makeDMARequest_stepTo (k x : Nat) (pkt : DMAPacket B) :
    StepTo P s (.makeDMARequest k x pkt) (s.makeDMARequest P k x pkt) := by
  unfold makeDMARequest
  split
  case isTrue hx =>
    unfold DMALine.makeRequest
    cases hr : (s.dma k x).request with
    | some r =>
      have hs : { s.setDMA k x (s.dma k x) with dmaMandatory := s.dmaMandatory.send [] } = s := by
        simp [setDMA, MsgChannel.send]
      simp only [hs]
      exact .idle _
    | none =>
      have hlen : (DMALine.requestMsg k x pkt).len = pkt.data.length := if_pos pkt.fits
      simp only [hlen]
      exact .makeDMARequest hx.1 hr
  case isFalse => exact .idle _

theorem serve_stepTo (n : Nat) : StepTo P s (.serve n) (s.serve n) := by
  unfold serve
  cases hr : s.memoryRequests[n]? with
  | none => exact .idle _
  | some r =>
    cases hw : r.write with
    | none =>
      simp only [hw]
      exact .serveRead hr hw
    | some data =>
      simp only [hw]
      exact .serveWrite hr hw

theorem exec_outcome (h : s.Ok P) (l : Label B) :
    Outcome (s.exec P l) (StepTo P s l) (FailsAt P s l) := by
  cases l with
  | makeRequest i x pkt => exact makeRequest_stepTo i x pkt
  | forwardIn i => exact forwardIn_outcome h i
  | responseIn i => exact responseIn_outcome h i
  | mandatoryIn i v => exact mandatoryIn_outcome h i v
  | requestIn d => exact requestIn_outcome h d
  | dmaRequestIn d => exact dmaRequestIn_outcome h d
  | memoryIn d => exact memoryIn_outcome h d
  | makeDMARequest k x pkt => exact makeDMARequest_stepTo k x pkt
  | dmaMandatoryIn k => exact dmaMandatoryIn_outcome h k
  | dmaResponseIn k => exact dmaResponseIn_outcome h k
  | deliver v n => exact .deliver v n
  | requeue v n => exact .requeue v n
  | serve n => exact serve_stepTo n

end Exec

end System

end NocSwap.MIExample
