import NocSwap.Protocol.MI.Types

/-!
# MI_example: the directory

`MI_example-dir.sm`.
-/

namespace NocSwap.MIExample

open Ruby (DataBlock)

structure DirEntry where
  directoryState : DirState := .I
  sharers : List MachineID := []
  owner : List MachineID := []
  deriving DecidableEq, Repr

structure DirTBE (B : Nat) where
  offset : Nat := 0
  tbeState : DirState := .I
  dataBlk : DataBlock B := DataBlock.clear
  len : Nat := 0
  dmaRequestor : MachineID := .L1Cache 0

/-- What a directory holds for one line. -/
structure DirLine (B : Nat) where
  entry : DirEntry := {}
  tbe : Option (DirTBE B) := none

inductive DirPort
  | dmaRequestQueue_in | requestQueue_in | memQueue_in
  deriving DecidableEq, Repr

inductive DirInMsg (B : Nat)
  | dmaRequest (m : DMARequestMsg B)
  | request (m : RequestMsg B)
  | memory (m : MemoryMsg B)

structure DirContext (B : Nat) where
  machineID : Nat
  address : Nat
  inMsg : DirInMsg B
  /-- `m_map.size() < m_number_of_TBEs`. -/
  tbeAvail : Bool

structure DirWork (B : Nat) where
  line : DirLine B
  forwards : List (RequestMsg B) := []
  responses : List (ResponseMsg B) := []
  dmaResponses : List (DMAResponseMsg B) := []
  memoryRequests : List MemoryRequest := []
  dequeued : List DirPort := []
  recycled : List DirPort := []

inductive DirAction
  | l_sendWriteBackAck | b_sendWriteBackNack | c_clearOwner | d_sendData | dr_sendDMAData
  | drp_sendDMAData | da_sendDMAAck | e_ownerIsRequestor | f_forwardRequest
  | inv_sendCacheInvalidate | i_popIncomingRequestQueue | p_popIncomingDMARequestQueue
  | v_allocateTBE | r_allocateTbeForDmaRead | v_allocateTBEFromRequestNet | w_deallocateTBE
  | z_recycleRequestQueue | y_recycleDMARequestQueue | qf_queueMemoryFetchRequest
  | qf_queueMemoryFetchRequestDMA | qw_queueMemoryWBRequest_partial
  | qw_queueMemoryWBRequest_partialTBE | l_queueMemoryWBRequest | l_popMemQueue
  deriving DecidableEq, Repr

namespace DirLine

variable {B : Nat}

def getState (l : DirLine B) : DirState :=
  match l.tbe with
  | some tbe => tbe.tbeState
  | none => l.entry.directoryState

def setState (state : DirState) (l : DirLine B) : Except Fault (DirLine B) := do
  if state = .M then
    require (.assertion .owners) (l.entry.owner.length = 1 ∧ l.entry.sharers.length = 0)
  if state = .I then
    require (.assertion .owners) (l.entry.owner.length = 0 ∧ l.entry.sharers.length = 0)
  return { l with
    tbe := l.tbe.map fun tbe => { tbe with tbeState := state }
    entry := { l.entry with directoryState := state } }

def dmaWriter (l : DirLine B) : Option MachineID :=
  match l.tbe with
  | some tbe =>
    if tbe.tbeState = .ID_W ∨ tbe.tbeState = .M_DWRI then some tbe.dmaRequestor else none
  | none => none

end DirLine

namespace Directory

variable {B : Nat}

def peekRequest (c : DirContext B) : Except Fault (RequestMsg B) :=
  match c.inMsg with
  | .request m => return m
  | _ => .error (.assertion .peek)

def peekDMARequest (c : DirContext B) : Except Fault (DMARequestMsg B) :=
  match c.inMsg with
  | .dmaRequest m => return m
  | _ => .error (.assertion .peek)

def peekMemory (c : DirContext B) : Except Fault (MemoryMsg B) :=
  match c.inMsg with
  | .memory m => return m
  | _ => .error (.assertion .peek)

def forward (c : DirContext B) (type : CoherenceRequestType) (requestor destination : MachineID) :
    RequestMsg B where
  addr := c.address
  type := type
  requestor := requestor
  source := .Directory c.machineID
  destination := destination
  dataBlk := DataBlock.clear

def dmaResponse (c : DirContext B) (type : DMAResponseType) (destination : MachineID)
    (dataBlk : DataBlock B) : DMAResponseMsg B where
  type := type
  lineAddress := c.address
  source := .Directory c.machineID
  destination := destination
  dataBlk := dataBlk

def queueMemoryRead (c : DirContext B) (id : MachineID) : MemoryRequest :=
  ⟨c.machineID, c.address, id, none⟩

def queueMemoryWrite (c : DirContext B) (id : MachineID) (block : DataBlock B) : MemoryRequest :=
  ⟨c.machineID, c.address, id, some (block.getData 0 B)⟩

/-- `queueMemoryWritePartial`: its offset is 0 and the packet is for the first `size` bytes. -/
def queueMemoryWritePartial (c : DirContext B) (id : MachineID) (block : DataBlock B)
    (size : Nat) : MemoryRequest :=
  ⟨c.machineID, c.address, id, some (block.getData 0 size)⟩

def allocateTBE (c : DirContext B) (tbe : DirTBE B) (w : DirWork B) : Except Fault (DirWork B) := do
  require (.assertion .tbeAbsent) (w.line.tbe.isNone = true)
  require (.assertion .tbeSize) (c.tbeAvail = true)
  return { w with line := { w.line with tbe := some tbe } }

def act (c : DirContext B) (w : DirWork B) : DirAction → Except Fault (DirWork B)
  | .l_sendWriteBackAck => do
    let m ← peekMemory c
    return { w with
      forwards := w.forwards ++ [forward c .WB_ACK m.originalRequestor m.originalRequestor] }
  | .b_sendWriteBackNack => do
    let m ← peekRequest c
    return { w with forwards := w.forwards ++ [forward c .WB_NACK m.requestor m.requestor] }
  | .c_clearOwner =>
    return { w with line := { w.line with entry := { w.line.entry with owner := [] } } }
  | .d_sendData => do
    let m ← peekMemory c
    return { w with responses := w.responses ++ [{
      addr := c.address
      sender := .Directory c.machineID
      destination := m.originalRequestor
      dataBlk := m.dataBlk }] }
  | .dr_sendDMAData => do
    let m ← peekMemory c
    let tbe ← orFail (.assertion .tbe) w.line.tbe
    return { w with
      dmaResponses := w.dmaResponses ++ [dmaResponse c .DATA tbe.dmaRequestor m.dataBlk] }
  | .drp_sendDMAData => do
    let m ← peekRequest c
    let tbe ← orFail (.assertion .tbe) w.line.tbe
    return { w with
      dmaResponses := w.dmaResponses ++ [dmaResponse c .DATA tbe.dmaRequestor m.dataBlk] }
  | .da_sendDMAAck => do
    let tbe ← orFail (.assertion .tbe) w.line.tbe
    return { w with
      dmaResponses := w.dmaResponses ++ [dmaResponse c .ACK tbe.dmaRequestor DataBlock.clear] }
  | .e_ownerIsRequestor => do
    let m ← peekRequest c
    return { w with line := { w.line with
      entry := { w.line.entry with owner := [m.requestor] } } }
  | .f_forwardRequest => do
    let m ← peekRequest c
    return { w with
      forwards := w.forwards ++ w.line.entry.owner.map (forward c m.type m.requestor) }
  | .inv_sendCacheInvalidate => do
    let _ ← peekDMARequest c
    return { w with
      forwards := w.forwards ++ w.line.entry.owner.map (forward c .INV (.Directory c.machineID)) }
  | .i_popIncomingRequestQueue => return { w with dequeued := w.dequeued ++ [.requestQueue_in] }
  | .p_popIncomingDMARequestQueue =>
    return { w with dequeued := w.dequeued ++ [.dmaRequestQueue_in] }
  | .v_allocateTBE => do
    let m ← peekDMARequest c
    allocateTBE c { offset := m.offset, dataBlk := m.dataBlk, len := m.len
                    dmaRequestor := m.requestor } w
  | .r_allocateTbeForDmaRead => do
    let m ← peekDMARequest c
    allocateTBE c { dmaRequestor := m.requestor } w
  | .v_allocateTBEFromRequestNet => do
    let m ← peekRequest c
    allocateTBE c { dataBlk := m.dataBlk } w
  | .w_deallocateTBE => do
    require (.assertion .tbePresent) (w.line.tbe.isSome = true)
    return { w with line := { w.line with tbe := none } }
  | .z_recycleRequestQueue => return { w with recycled := w.recycled ++ [.requestQueue_in] }
  | .y_recycleDMARequestQueue => return { w with recycled := w.recycled ++ [.dmaRequestQueue_in] }
  | .qf_queueMemoryFetchRequest => do
    let m ← peekRequest c
    return { w with memoryRequests := w.memoryRequests ++ [queueMemoryRead c m.requestor] }
  | .qf_queueMemoryFetchRequestDMA => do
    let m ← peekDMARequest c
    return { w with memoryRequests := w.memoryRequests ++ [queueMemoryRead c m.requestor] }
  | DirAction.qw_queueMemoryWBRequest_partial => do
    let m ← peekDMARequest c
    return { w with
      memoryRequests := w.memoryRequests ++
        [queueMemoryWritePartial c m.requestor m.dataBlk m.len] }
  | .qw_queueMemoryWBRequest_partialTBE => do
    let m ← peekRequest c
    let tbe ← orFail (.assertion .tbe) w.line.tbe
    return { w with
      memoryRequests := w.memoryRequests ++
        [queueMemoryWritePartial c m.requestor tbe.dataBlk tbe.len] }
  | .l_queueMemoryWBRequest => do
    let m ← peekRequest c
    return { w with
      memoryRequests := w.memoryRequests ++ [queueMemoryWrite c m.requestor m.dataBlk] }
  | .l_popMemQueue => return { w with dequeued := w.dequeued ++ [.memQueue_in] }

def transition : DirState → DirEvent → Option (List DirAction × DirState)
  | .M_DRD, .GETX => some ([.z_recycleRequestQueue], .M_DRD)
  | .M_DWR, .GETX => some ([.z_recycleRequestQueue], .M_DWR)
  | .M_DWRI, .GETX => some ([.z_recycleRequestQueue], .M_DWRI)
  | .M_DRDI, .GETX => some ([.z_recycleRequestQueue], .M_DRDI)
  | .IM, .GETX | .IM, .PUTX | .IM, .PUTX_NotOwner => some ([.z_recycleRequestQueue], .IM)
  | .MI, .GETX | .MI, .PUTX | .MI, .PUTX_NotOwner => some ([.z_recycleRequestQueue], .MI)
  | .ID, .GETX | .ID, .PUTX | .ID, .PUTX_NotOwner => some ([.z_recycleRequestQueue], .ID)
  | .ID_W, .GETX | .ID_W, .PUTX | .ID_W, .PUTX_NotOwner => some ([.z_recycleRequestQueue], .ID_W)
  | .IM, .DMA_READ | .IM, .DMA_WRITE => some ([.y_recycleDMARequestQueue], .IM)
  | .MI, .DMA_READ | .MI, .DMA_WRITE => some ([.y_recycleDMARequestQueue], .MI)
  | .ID, .DMA_READ | .ID, .DMA_WRITE => some ([.y_recycleDMARequestQueue], .ID)
  | .ID_W, .DMA_READ | .ID_W, .DMA_WRITE => some ([.y_recycleDMARequestQueue], .ID_W)
  | .I, .GETX =>
    some ([.qf_queueMemoryFetchRequest, .e_ownerIsRequestor, .i_popIncomingRequestQueue], .IM)
  | .IM, .Memory_Data => some ([.d_sendData, .l_popMemQueue], .M)
  | .I, .DMA_READ =>
    some ([.r_allocateTbeForDmaRead, .qf_queueMemoryFetchRequestDMA,
      .p_popIncomingDMARequestQueue], .ID)
  | .ID, .Memory_Data => some ([.dr_sendDMAData, .w_deallocateTBE, .l_popMemQueue], .I)
  | .I, .DMA_WRITE =>
    some ([.v_allocateTBE, DirAction.qw_queueMemoryWBRequest_partial,
      .p_popIncomingDMARequestQueue], .ID_W)
  | .ID_W, .Memory_Ack => some ([.da_sendDMAAck, .w_deallocateTBE, .l_popMemQueue], .I)
  | .M, .DMA_READ =>
    some ([.v_allocateTBE, .inv_sendCacheInvalidate, .p_popIncomingDMARequestQueue], .M_DRD)
  | .M_DRD, .PUTX =>
    some ([.drp_sendDMAData, .c_clearOwner, .l_queueMemoryWBRequest,
      .i_popIncomingRequestQueue], .M_DRDI)
  | .M_DRDI, .Memory_Ack => some ([.l_sendWriteBackAck, .w_deallocateTBE, .l_popMemQueue], .I)
  | .M, .DMA_WRITE =>
    some ([.v_allocateTBE, .inv_sendCacheInvalidate, .p_popIncomingDMARequestQueue], .M_DWR)
  | .M_DWR, .PUTX =>
    some ([.qw_queueMemoryWBRequest_partialTBE, .c_clearOwner, .i_popIncomingRequestQueue], .M_DWRI)
  | .M_DWRI, .Memory_Ack =>
    some ([.l_sendWriteBackAck, .da_sendDMAAck, .w_deallocateTBE, .l_popMemQueue], .I)
  | .M, .GETX => some ([.f_forwardRequest, .e_ownerIsRequestor, .i_popIncomingRequestQueue], .M)
  | .M, .PUTX =>
    some ([.c_clearOwner, .v_allocateTBEFromRequestNet, .l_queueMemoryWBRequest,
      .i_popIncomingRequestQueue], .MI)
  | .MI, .Memory_Ack => some ([.l_sendWriteBackAck, .w_deallocateTBE, .l_popMemQueue], .I)
  | .M, .PUTX_NotOwner => some ([.b_sendWriteBackNack, .i_popIncomingRequestQueue], .M)
  | .I, .PUTX_NotOwner => some ([.b_sendWriteBackNack, .i_popIncomingRequestQueue], .I)
  | _, _ => none

def doTransition (c : DirContext B) (event : DirEvent) (l : DirLine B) :
    Except Fault (DirWork B) := do
  let (actions, next) ← orFail (.invalidTransition (.Directory l.getState event))
    (transition l.getState event)
  let w ← actions.foldlM (act c) { line := l }
  let line ← w.line.setState next
  return { w with line := line }

def requestEvent (m : RequestMsg B) (l : DirLine B) : Except Fault DirEvent :=
  match m.type with
  | .GETX => return .GETX
  | .PUTX => if m.requestor ∈ l.entry.owner then return .PUTX else return .PUTX_NotOwner
  | _ => .error (.assertion .peek)

def dmaRequestEvent : DMARequestType → DirEvent
  | .READ => .DMA_READ
  | .WRITE => .DMA_WRITE

def memoryEvent : MemoryRequestType → DirEvent
  | .MEMORY_READ => .Memory_Data
  | .MEMORY_WB => .Memory_Ack

end Directory

end NocSwap.MIExample
