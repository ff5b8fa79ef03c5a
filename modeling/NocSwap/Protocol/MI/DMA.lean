import NocSwap.Protocol.MI.Types

/-!
# MI_example: the DMA controller

`MI_example-dma.sm` and `DMASequencer` of `mem/ruby/system`.
-/

namespace NocSwap.MIExample

open Ruby (DataBlock)

/-- A packet of a DMA device. -/
@[ext]
structure DMAPacket (B : Nat) where
  write : Bool
  offset : Nat
  data : List UInt8
  fits : offset + data.length ≤ B
  deriving Repr

instance (B : Nat) : DecidableEq (DMAPacket B) := fun _ _ =>
  decidable_of_iff _ DMAPacket.ext_iff.symm

structure DMARequest (B : Nat) where
  pkt : DMAPacket B
  bytesCompleted : Nat
  bytesIssued : Nat

structure DMATBE (B : Nat) where
  tbeState : DMAState := .READY
  dataBlk : DataBlock B := DataBlock.clear

/-- What a DMA controller and its sequencer hold for one line. -/
structure DMALine (B : Nat) where
  tbe : Option (DMATBE B) := none
  request : Option (DMARequest B) := none

inductive DMAPort
  | dmaRequestQueue_in | dmaResponseQueue_in
  deriving DecidableEq, Repr

inductive DMAInMsg (B : Nat)
  | request (m : SequencerMsg B)
  | response (m : DMAResponseMsg B)

structure DMAContext (B : Nat) where
  machineID : Nat
  address : Nat
  home : Nat
  inMsg : DMAInMsg B
  /-- `m_map.size() < m_number_of_TBEs`. -/
  tbeAvail : Bool

structure DMACallback (B : Nat) where
  pkt : DMAPacket B
  data : List UInt8
  deriving DecidableEq, Repr

structure DMAWork (B : Nat) where
  line : DMALine B
  requests : List (DMARequestMsg B) := []
  callbacks : List (DMACallback B) := []
  dequeued : List DMAPort := []
  stalled : Bool := false
  wokenUp : Bool := false

inductive DMAAction
  | s_sendReadRequest | s_sendWriteRequest | a_ackCallback | d_dataCallback | t_updateTBEData
  | v_allocateTBE | w_deallocateTBE | p_popRequestQueue | p_popResponseQueue
  | zz_stallAndWaitRequestQueue | wkad_wakeUpAllDependents
  deriving DecidableEq, Repr

namespace DMALine

variable {B : Nat}

def getState (l : DMALine B) : DMAState :=
  match l.tbe with
  | some tbe => tbe.tbeState
  | none => .READY

def setState (state : DMAState) (l : DMALine B) : DMALine B :=
  { l with tbe := l.tbe.map fun tbe => { tbe with tbeState := state } }

/-- The message that `DMASequencer::makeRequest` makes of a packet for the line. -/
def requestMsg (dma line : Nat) (pkt : DMAPacket B) : SequencerMsg B where
  dma := dma
  lineAddress := line
  offset := pkt.offset
  write := pkt.write
  len := if pkt.offset + pkt.data.length ≤ B then pkt.data.length else B - pkt.offset
  dataBlk :=
    if pkt.write = true then DataBlock.setData pkt.data pkt.offset DataBlock.clear
    else DataBlock.clear

/-- `DMASequencer::makeRequest`, with room for the request: the answer, the line and the message. -/
def makeRequest (dma line : Nat) (pkt : DMAPacket B) (l : DMALine B) :
    Ruby.RequestStatus × DMALine B × List (SequencerMsg B) :=
  match l.request with
  | some _ => (.Aliased, l, [])
  | none =>
    let m := requestMsg dma line pkt
    (.Issued, { l with request := some ⟨pkt, 0, m.len⟩ }, [m])

/-- `DMASequencer::issueNext`: the request is complete when all its bytes are. -/
def issueNext (r : DMARequest B) (l : DMALine B) : Except Fault (DMALine B) := do
  let r := { r with bytesCompleted := r.bytesIssued }
  require (.assertion .dmaRequest) (r.pkt.data.length = r.bytesCompleted)
  return { l with request := none }

def dataCallback (dblk : DataBlock B) (l : DMALine B) :
    Except Fault (DMALine B × DMACallback B) := do
  let r ← orFail (.assertion .dmaRequest) l.request
  let len := r.bytesIssued - r.bytesCompleted
  let offset := if r.bytesCompleted = 0 then r.pkt.offset else 0
  require (.assertion .dmaRequest) (r.pkt.write = false)
  let l ← issueNext r l
  return (l, ⟨r.pkt, dblk.getData offset len⟩)

def ackCallback (l : DMALine B) : Except Fault (DMALine B × DMACallback B) := do
  let r ← orFail (.assertion .dmaRequest) l.request
  let l ← issueNext r l
  return (l, ⟨r.pkt, r.pkt.data⟩)

end DMALine

namespace DMA

variable {B : Nat}

def dmaRequest (c : DMAContext B) (type : DMARequestType) (m : SequencerMsg B) :
    DMARequestMsg B where
  type := type
  offset := m.offset
  lineAddress := m.lineAddress
  requestor := .DMA c.machineID
  destination := .Directory c.home
  dataBlk := m.dataBlk
  len := m.len

def peekRequest (c : DMAContext B) : Except Fault (SequencerMsg B) :=
  match c.inMsg with
  | .request m => return m
  | _ => .error (.assertion .peek)

def peekResponse (c : DMAContext B) : Except Fault (DMAResponseMsg B) :=
  match c.inMsg with
  | .response m => return m
  | _ => .error (.assertion .peek)

def act (c : DMAContext B) (w : DMAWork B) : DMAAction → Except Fault (DMAWork B)
  | .s_sendReadRequest => do
    let m ← peekRequest c
    return { w with requests := w.requests ++ [dmaRequest c .READ m] }
  | .s_sendWriteRequest => do
    let m ← peekRequest c
    return { w with requests := w.requests ++ [dmaRequest c .WRITE m] }
  | .a_ackCallback => do
    let (line, cb) ← w.line.ackCallback
    return { w with line := line, callbacks := w.callbacks ++ [cb] }
  | .d_dataCallback => do
    let tbe ← orFail (.assertion .tbe) w.line.tbe
    let (line, cb) ← w.line.dataCallback tbe.dataBlk
    return { w with line := line, callbacks := w.callbacks ++ [cb] }
  | .t_updateTBEData => do
    let tbe ← orFail (.assertion .tbe) w.line.tbe
    let m ← peekResponse c
    return { w with line := { w.line with tbe := some { tbe with dataBlk := m.dataBlk } } }
  | .v_allocateTBE => do
    require (.assertion .tbeAbsent) (w.line.tbe.isNone = true)
    require (.assertion .tbeSize) (c.tbeAvail = true)
    return { w with line := { w.line with tbe := some {} } }
  | .w_deallocateTBE => do
    require (.assertion .tbePresent) (w.line.tbe.isSome = true)
    return { w with line := { w.line with tbe := none } }
  | .p_popRequestQueue => return { w with dequeued := w.dequeued ++ [.dmaRequestQueue_in] }
  | .p_popResponseQueue => return { w with dequeued := w.dequeued ++ [.dmaResponseQueue_in] }
  | .zz_stallAndWaitRequestQueue => return { w with stalled := true }
  | .wkad_wakeUpAllDependents => return { w with wokenUp := true }

def transition : DMAState → DMAEvent → Option (List DMAAction × DMAState)
  | .READY, .ReadRequest =>
    some ([.v_allocateTBE, .s_sendReadRequest, .p_popRequestQueue], .BUSY_RD)
  | .READY, .WriteRequest =>
    some ([.v_allocateTBE, .s_sendWriteRequest, .p_popRequestQueue], .BUSY_WR)
  | .BUSY_RD, .Data =>
    some ([.t_updateTBEData, .d_dataCallback, .w_deallocateTBE, .p_popResponseQueue,
      .wkad_wakeUpAllDependents], .READY)
  | .BUSY_WR, .Ack =>
    some ([.a_ackCallback, .w_deallocateTBE, .p_popResponseQueue, .wkad_wakeUpAllDependents],
      .READY)
  | .BUSY_RD, .ReadRequest | .BUSY_RD, .WriteRequest =>
    some ([.zz_stallAndWaitRequestQueue], .BUSY_RD)
  | .BUSY_WR, .ReadRequest | .BUSY_WR, .WriteRequest =>
    some ([.zz_stallAndWaitRequestQueue], .BUSY_WR)
  | _, _ => none

def doTransition (c : DMAContext B) (event : DMAEvent) (l : DMALine B) :
    Except Fault (DMAWork B) := do
  let (actions, next) ← orFail (.invalidTransition (.DMA l.getState event))
    (transition l.getState event)
  let w ← actions.foldlM (act c) { line := l }
  return { w with line := w.line.setState next }

def requestEvent (m : SequencerMsg B) : DMAEvent :=
  if m.write = true then .WriteRequest else .ReadRequest

def responseEvent : DMAResponseType → DMAEvent
  | .DATA => .Data
  | .ACK => .Ack

end DMA

end NocSwap.MIExample
