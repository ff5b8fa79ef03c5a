import NocSwap.Protocol.MI.Directory
import NocSwap.Protocol.MI.Line

/-!
# MI_example: what a transition of a directory does
-/

namespace NocSwap.MIExample

open Ruby (DataBlock)

variable {B : Nat}

def DirState.hasTBE : DirState → Bool
  | .I | .M | .IM => false
  | _ => true

def DirState.hasOwner : DirState → Bool
  | .M | .IM | .M_DRD | .M_DWR => true
  | _ => false

structure DirLine.Ok (l : DirLine B) : Prop where
  tbeState : ∀ t ∈ l.tbe, t.tbeState = l.entry.directoryState
  hasTBE : l.tbe.isSome = l.entry.directoryState.hasTBE
  owner : if l.entry.directoryState.hasOwner = true then ∃ o, l.entry.owner = [.L1Cache o]
    else l.entry.owner = []
  sharers : l.entry.sharers = []

theorem DirLine.Ok.getState_eq {l : DirLine B} (h : l.Ok) :
    l.getState = l.entry.directoryState := by
  unfold DirLine.getState
  cases ht : l.tbe with
  | none => rfl
  | some t => exact h.tbeState t ht

namespace Directory

inductive Step (c : DirContext B) (l : DirLine B) : DirEvent → DirWork B → Prop
  | fetch {m : RequestMsg B} (hm : c.inMsg = .request m) (hs : l.getState = .I) :
      Step c l .GETX
        { line := { l with entry := { directoryState := .IM, owner := [m.requestor] } }
          memoryRequests := [queueMemoryRead c m.requestor]
          dequeued := [.requestQueue_in] }
  | forward {m : RequestMsg B} {o : MachineID} (hm : c.inMsg = .request m) (hs : l.getState = .M)
      (ho : l.entry.owner = [o]) :
      Step c l .GETX
        { line := { l with entry := { directoryState := .M, owner := [m.requestor] } }
          forwards := [Directory.forward c m.type m.requestor o]
          dequeued := [.requestQueue_in] }
  | nack {m : RequestMsg B} (hm : c.inMsg = .request m)
      (hs : l.getState = .I ∨ l.getState = .M) :
      Step c l .PUTX_NotOwner
        { line := l
          forwards := [Directory.forward c .WB_NACK m.requestor m.requestor]
          dequeued := [.requestQueue_in] }
  | writeback {m : RequestMsg B} (hm : c.inMsg = .request m) (hs : l.getState = .M) :
      Step c l .PUTX
        { line :=
            { entry := { directoryState := .MI }
              tbe := some { tbeState := .MI, dataBlk := m.dataBlk } }
          memoryRequests := [queueMemoryWrite c m.requestor m.dataBlk]
          dequeued := [.requestQueue_in] }
  | writebackRead {m : RequestMsg B} {t : DirTBE B} (hm : c.inMsg = .request m)
      (ht : l.tbe = some t) (hs : l.getState = .M_DRD) :
      Step c l .PUTX
        { line :=
            { entry := { directoryState := .M_DRDI }, tbe := some { t with tbeState := .M_DRDI } }
          dmaResponses := [dmaResponse c .DATA t.dmaRequestor m.dataBlk]
          memoryRequests := [queueMemoryWrite c m.requestor m.dataBlk]
          dequeued := [.requestQueue_in] }
  | overwrite {m : RequestMsg B} {t : DirTBE B} (hm : c.inMsg = .request m) (ht : l.tbe = some t)
      (hs : l.getState = .M_DWR) :
      Step c l .PUTX
        { line :=
            { entry := { directoryState := .M_DWRI }, tbe := some { t with tbeState := .M_DWRI } }
          memoryRequests := [queueMemoryWritePartial c m.requestor t.dataBlk t.len]
          dequeued := [.requestQueue_in] }
  | data {m : MemoryMsg B} (hm : c.inMsg = .memory m) (hs : l.getState = .IM) :
      Step c l .Memory_Data
        { line := { l with entry := { l.entry with directoryState := .M } }
          responses := [⟨c.address, .Directory c.machineID, m.originalRequestor, m.dataBlk⟩]
          dequeued := [.memQueue_in] }
  | ack {m : MemoryMsg B} (hm : c.inMsg = .memory m)
      (hs : l.getState = .MI ∨ l.getState = .M_DRDI) :
      Step c l .Memory_Ack
        { line := {}
          forwards := [Directory.forward c .WB_ACK m.originalRequestor m.originalRequestor]
          dequeued := [.memQueue_in] }
  | ackWrite {m : MemoryMsg B} {t : DirTBE B} (hm : c.inMsg = .memory m) (ht : l.tbe = some t)
      (hs : l.getState = .M_DWRI) :
      Step c l .Memory_Ack
        { line := {}
          forwards := [Directory.forward c .WB_ACK m.originalRequestor m.originalRequestor]
          dmaResponses := [dmaResponse c .ACK t.dmaRequestor DataBlock.clear]
          dequeued := [.memQueue_in] }
  | dmaRead {m : DMARequestMsg B} (hm : c.inMsg = .dmaRequest m) (hs : l.getState = .I) :
      Step c l .DMA_READ
        { line :=
            { entry := { directoryState := .ID }
              tbe := some { tbeState := .ID, dmaRequestor := m.requestor } }
          memoryRequests := [queueMemoryRead c m.requestor]
          dequeued := [.dmaRequestQueue_in] }
  | dmaWrite {m : DMARequestMsg B} (hm : c.inMsg = .dmaRequest m) (hs : l.getState = .I) :
      Step c l .DMA_WRITE
        { line :=
            { entry := { directoryState := .ID_W }
              tbe := some { offset := m.offset, tbeState := .ID_W, dataBlk := m.dataBlk
                            len := m.len, dmaRequestor := m.requestor } }
          memoryRequests := [queueMemoryWritePartial c m.requestor m.dataBlk m.len]
          dequeued := [.dmaRequestQueue_in] }
  | dmaData {m : MemoryMsg B} {t : DirTBE B} (hm : c.inMsg = .memory m) (ht : l.tbe = some t)
      (hs : l.getState = .ID) :
      Step c l .Memory_Data
        { line := {}
          dmaResponses := [dmaResponse c .DATA t.dmaRequestor m.dataBlk]
          dequeued := [.memQueue_in] }
  | dmaAck {m : MemoryMsg B} {t : DirTBE B} (hm : c.inMsg = .memory m) (ht : l.tbe = some t)
      (hs : l.getState = .ID_W) :
      Step c l .Memory_Ack
        { line := {}
          dmaResponses := [dmaResponse c .ACK t.dmaRequestor DataBlock.clear]
          dequeued := [.memQueue_in] }
  | dmaInv {event : DirEvent} {next : DirState} {m : DMARequestMsg B} {o : MachineID}
      (hev : event = .DMA_READ ∧ next = .M_DRD ∨ event = .DMA_WRITE ∧ next = .M_DWR)
      (hm : c.inMsg = .dmaRequest m) (hs : l.getState = .M) (ho : l.entry.owner = [o]) :
      Step c l event
        { line :=
            { entry := { directoryState := next, owner := [o] }
              tbe := some { offset := m.offset, tbeState := next, dataBlk := m.dataBlk
                            len := m.len, dmaRequestor := m.requestor } }
          forwards := [Directory.forward c .INV (.Directory c.machineID) o]
          dequeued := [.dmaRequestQueue_in] }
  | recycleRequest {event : DirEvent}
      (h : transition l.getState event = some ([.z_recycleRequestQueue], l.getState)) :
      Step c l event { line := l, recycled := [.requestQueue_in] }
  | recycleDMARequest {event : DirEvent}
      (h : transition l.getState event = some ([.y_recycleDMARequestQueue], l.getState)) :
      Step c l event { line := l, recycled := [.dmaRequestQueue_in] }

def InMsgOk (m : DirInMsg B) : DirEvent → Prop
  | .GETX | .PUTX | .PUTX_NotOwner => ∃ r, m = .request r
  | .DMA_READ | .DMA_WRITE => ∃ r, m = .dmaRequest r
  | .Memory_Data | .Memory_Ack => ∃ r, m = .memory r

inductive Fails (c : DirContext B) (l : DirLine B) (event : DirEvent) : Fault → Prop
  | invalidTransition (h : transition l.getState event = none) :
      Fails c l event (.invalidTransition (.Directory l.getState event))
  | tbeSize (h : c.tbeAvail = false) : Fails c l event (.assertion .tbeSize)

section Outcome

variable {c : DirContext B} {l : DirLine B} {event : DirEvent} {st next : DirState}
  {actions : List DirAction}

variable {w : DirWork B}

theorem outcome_step {E : Fault → Prop} (hw : Step c l event w)
    (h : doTransition c event l = .ok w) :
    Outcome (doTransition c event l) (Step c l event) E := by
  rw [h]
  exact hw

variable {Q : DirWork B → Prop}

theorem outcome_fail {e : Fault} (he : Fails c l event e) (h : doTransition c event l = .error e) :
    Outcome (doTransition c event l) Q (Fails c l event) := by
  rw [h]
  exact he

theorem outcome_invalid (h : transition l.getState event = none) :
    Outcome (doTransition c event l) Q (Fails c l event) := by
  refine outcome_fail (.invalidTransition h) ?_
  unfold doTransition
  rw [h]
  rfl

theorem eq_of_ok {sh owner : List MachineID} {tbe : Option (DirTBE B)}
    (h : DirLine.Ok ⟨⟨st, sh, owner⟩, tbe⟩) :
    sh = [] ∧ (if st.hasTBE = true then ∃ t : DirTBE B, tbe = some t ∧ t.tbeState = st
      else tbe = none) ∧
    (if st.hasOwner = true then ∃ o, owner = [.L1Cache o] else owner = []) := by
  refine ⟨h.sharers, ?_, h.owner⟩
  have hs := h.hasTBE
  cases tbe with
  | none =>
    have hf : st.hasTBE = false := hs.symm
    rw [hf, if_neg Bool.false_ne_true]
  | some t =>
    have hf : st.hasTBE = true := hs.symm
    rw [if_pos hf]
    exact ⟨t, rfl, h.tbeState t rfl⟩

theorem doTransition_outcome (hl : l.Ok) (hm : InMsgOk c.inMsg event) :
    Outcome (doTransition c event l) (Step c l event) (Fails c l event) := by
  obtain ⟨⟨st, sh, owner⟩, tbe⟩ := l
  obtain ⟨d, x, inMsg, tbeAvail⟩ := c
  obtain ⟨rfl, ht, ho⟩ := eq_of_ok hl
  cases st with
  | I =>
    cases ht
    cases ho
    cases event with
    | GETX =>
      obtain ⟨m, rfl⟩ := hm
      exact outcome_step (.fetch rfl rfl) rfl
    | PUTX_NotOwner =>
      obtain ⟨m, rfl⟩ := hm
      exact outcome_step (.nack rfl (.inl rfl)) rfl
    | DMA_READ =>
      obtain ⟨m, rfl⟩ := hm
      cases tbeAvail with
      | true => exact outcome_step (.dmaRead rfl rfl) rfl
      | false => exact outcome_fail (.tbeSize rfl) rfl
    | DMA_WRITE =>
      obtain ⟨m, rfl⟩ := hm
      cases tbeAvail with
      | true => exact outcome_step (.dmaWrite rfl rfl) rfl
      | false => exact outcome_fail (.tbeSize rfl) rfl
    | PUTX | Memory_Data | Memory_Ack => exact outcome_invalid rfl
  | M =>
    obtain ⟨o, rfl⟩ := ho
    cases ht
    cases event with
    | GETX =>
      obtain ⟨m, rfl⟩ := hm
      exact outcome_step (.forward rfl rfl rfl) rfl
    | PUTX_NotOwner =>
      obtain ⟨m, rfl⟩ := hm
      exact outcome_step (.nack rfl (.inr rfl)) rfl
    | PUTX =>
      obtain ⟨m, rfl⟩ := hm
      cases tbeAvail with
      | true => exact outcome_step (.writeback rfl rfl) rfl
      | false => exact outcome_fail (.tbeSize rfl) rfl
    | DMA_READ =>
      obtain ⟨m, rfl⟩ := hm
      cases tbeAvail with
      | true => exact outcome_step (.dmaInv (.inl ⟨rfl, rfl⟩) rfl rfl rfl) rfl
      | false => exact outcome_fail (.tbeSize rfl) rfl
    | DMA_WRITE =>
      obtain ⟨m, rfl⟩ := hm
      cases tbeAvail with
      | true => exact outcome_step (.dmaInv (.inr ⟨rfl, rfl⟩) rfl rfl rfl) rfl
      | false => exact outcome_fail (.tbeSize rfl) rfl
    | Memory_Data | Memory_Ack => exact outcome_invalid rfl
  | IM =>
    obtain ⟨o, rfl⟩ := ho
    cases ht
    cases event with
    | GETX | PUTX | PUTX_NotOwner => exact outcome_step (.recycleRequest rfl) rfl
    | DMA_READ | DMA_WRITE => exact outcome_step (.recycleDMARequest rfl) rfl
    | Memory_Data =>
      obtain ⟨m, rfl⟩ := hm
      exact outcome_step (.data rfl rfl) rfl
    | Memory_Ack => exact outcome_invalid rfl
  | MI =>
    cases ho
    obtain ⟨⟨_, _, _, _, _⟩, rfl, hs⟩ := ht
    cases hs
    cases event with
    | GETX | PUTX | PUTX_NotOwner => exact outcome_step (.recycleRequest rfl) rfl
    | DMA_READ | DMA_WRITE => exact outcome_step (.recycleDMARequest rfl) rfl
    | Memory_Ack =>
      obtain ⟨m, rfl⟩ := hm
      exact outcome_step (.ack rfl (.inl rfl)) rfl
    | Memory_Data => exact outcome_invalid rfl
  | ID =>
    cases ho
    obtain ⟨⟨_, _, _, _, _⟩, rfl, hs⟩ := ht
    cases hs
    cases event with
    | GETX | PUTX | PUTX_NotOwner => exact outcome_step (.recycleRequest rfl) rfl
    | DMA_READ | DMA_WRITE => exact outcome_step (.recycleDMARequest rfl) rfl
    | Memory_Data =>
      obtain ⟨m, rfl⟩ := hm
      exact outcome_step (.dmaData rfl rfl rfl) rfl
    | Memory_Ack => exact outcome_invalid rfl
  | ID_W =>
    cases ho
    obtain ⟨⟨_, _, _, _, _⟩, rfl, hs⟩ := ht
    cases hs
    cases event with
    | GETX | PUTX | PUTX_NotOwner => exact outcome_step (.recycleRequest rfl) rfl
    | DMA_READ | DMA_WRITE => exact outcome_step (.recycleDMARequest rfl) rfl
    | Memory_Ack =>
      obtain ⟨m, rfl⟩ := hm
      exact outcome_step (.dmaAck rfl rfl rfl) rfl
    | Memory_Data => exact outcome_invalid rfl
  | M_DRD =>
    obtain ⟨o, rfl⟩ := ho
    obtain ⟨⟨_, _, _, _, _⟩, rfl, hs⟩ := ht
    cases hs
    cases event with
    | GETX => exact outcome_step (.recycleRequest rfl) rfl
    | PUTX =>
      obtain ⟨m, rfl⟩ := hm
      exact outcome_step (.writebackRead rfl rfl rfl) rfl
    | PUTX_NotOwner | DMA_READ | DMA_WRITE | Memory_Data | Memory_Ack => exact outcome_invalid rfl
  | M_DWR =>
    obtain ⟨o, rfl⟩ := ho
    obtain ⟨⟨_, _, _, _, _⟩, rfl, hs⟩ := ht
    cases hs
    cases event with
    | GETX => exact outcome_step (.recycleRequest rfl) rfl
    | PUTX =>
      obtain ⟨m, rfl⟩ := hm
      exact outcome_step (.overwrite rfl rfl rfl) rfl
    | PUTX_NotOwner | DMA_READ | DMA_WRITE | Memory_Data | Memory_Ack => exact outcome_invalid rfl
  | M_DRDI =>
    cases ho
    obtain ⟨⟨_, _, _, _, _⟩, rfl, hs⟩ := ht
    cases hs
    cases event with
    | GETX => exact outcome_step (.recycleRequest rfl) rfl
    | Memory_Ack =>
      obtain ⟨m, rfl⟩ := hm
      exact outcome_step (.ack rfl (.inr rfl)) rfl
    | PUTX | PUTX_NotOwner | DMA_READ | DMA_WRITE | Memory_Data => exact outcome_invalid rfl
  | M_DWRI =>
    cases ho
    obtain ⟨⟨_, _, _, _, _⟩, rfl, hs⟩ := ht
    cases hs
    cases event with
    | GETX => exact outcome_step (.recycleRequest rfl) rfl
    | Memory_Ack =>
      obtain ⟨m, rfl⟩ := hm
      exact outcome_step (.ackWrite rfl rfl rfl) rfl
    | PUTX | PUTX_NotOwner | DMA_READ | DMA_WRITE | Memory_Data => exact outcome_invalid rfl

theorem Step.ok (h : Step c l event w) (hl : l.Ok)
    (hr : ∀ m, c.inMsg = .request m → ∃ i, m.requestor = .L1Cache i) : w.line.Ok := by
  have hst := hl.getState_eq
  cases h with
  | fetch hm hs | forward hm hs =>
    have htbe := hl.hasTBE
    rw [← hst, hs] at htbe
    have hnone : l.tbe = none := by simpa [DirState.hasTBE] using htbe
    obtain ⟨i, hi⟩ := hr _ hm
    refine ⟨?_, ?_, ⟨i, by rw [hi]⟩, rfl⟩
    all_goals simp [hnone, DirState.hasTBE]
  | data hm hs =>
    have htbe := hl.hasTBE
    have ho := hl.owner
    rw [← hst, hs] at htbe ho
    have hnone : l.tbe = none := by simpa [DirState.hasTBE] using htbe
    refine ⟨?_, ?_, ho, hl.sharers⟩
    all_goals simp [hnone, DirState.hasTBE]
  | nack | recycleRequest | recycleDMARequest => exact hl
  | writeback | writebackRead | overwrite | dmaRead | dmaWrite =>
    exact ⟨fun t ht => by cases ht; rfl, rfl, rfl, rfl⟩
  | ack | ackWrite | dmaData | dmaAck =>
    exact ⟨fun t ht => absurd ht (Option.not_mem_none t), rfl, rfl, rfl⟩
  | dmaInv hev hm hs ho =>
    have ho' := hl.owner
    rw [← hst, hs, ho] at ho'
    obtain ⟨o, ho'⟩ := ho'
    rcases hev with ⟨-, rfl⟩ | ⟨-, rfl⟩
    all_goals exact ⟨fun t ht => by cases ht; rfl, rfl, ⟨o, ho'⟩, rfl⟩

theorem Step.addr (h : Step c l event w) :
    (∀ m ∈ w.forwards, m.addr = c.address) ∧ (∀ m ∈ w.responses, m.addr = c.address) ∧
      ∀ r ∈ w.memoryRequests, r.addr = c.address := by
  cases h <;> simp [Directory.forward, queueMemoryRead, queueMemoryWrite, queueMemoryWritePartial]

theorem Step.dequeued (h : Step c l event w) :
    (.requestQueue_in ∈ w.dequeued → ∃ m, c.inMsg = .request m) ∧
      (.memQueue_in ∈ w.dequeued → ∃ m, c.inMsg = .memory m) := by
  cases h with
  | fetch hm | forward hm | nack hm | writeback hm | writebackRead hm | overwrite hm | data hm
  | ack hm | ackWrite hm | dmaRead hm | dmaWrite hm | dmaData hm | dmaAck hm =>
    simp [hm]
  | dmaInv _ hm => simp [hm]
  | recycleRequest | recycleDMARequest => simp

variable {m : RequestMsg B}

theorem of_requestEvent_PUTX (h : requestEvent m l = .ok .PUTX) :
    m.type = .PUTX ∧ m.requestor ∈ l.entry.owner := by
  unfold requestEvent at h
  cases ht : m.type with
  | PUTX =>
    rw [ht] at h
    by_cases ho : m.requestor ∈ l.entry.owner
    · exact ⟨rfl, ho⟩
    · simp only [if_neg ho] at h
      cases h
  | _ =>
    rw [ht] at h
    cases h

theorem eq_GETX_of_requestEvent (h : requestEvent m l = .ok .GETX) : m.type = .GETX := by
  unfold requestEvent at h
  cases ht : m.type with
  | GETX => rfl
  | PUTX =>
    rw [ht] at h
    by_cases ho : m.requestor ∈ l.entry.owner
    · simp only [if_pos ho] at h
      cases h
    · simp only [if_neg ho] at h
      cases h
  | _ =>
    rw [ht] at h
    cases h

end Outcome

end Directory

end NocSwap.MIExample
