import NocSwap.Protocol.MI.Types

/-!
# MI_example: the L1 cache

`MI_example-cache.sm`.
-/

namespace NocSwap.MIExample

open Ruby (DataBlock SequencerLine Callback RubyRequestType)

structure L1Entry (B : Nat) where
  cacheState : L1State := .I
  dataBlk : DataBlock B := DataBlock.clear
  locked : Option Nat := none

structure L1TBE (B : Nat) where
  tbeState : L1State := .I
  dataBlk : DataBlock B := DataBlock.clear

/-- What a cache controller holds for one line. -/
structure L1Line (B : Nat) where
  cacheEntry : Option (L1Entry B) := none
  tbe : Option (L1TBE B) := none
  sequencer : SequencerLine B := {}

inductive L1Port
  | forwardRequestNetwork_in | responseNetwork_in | mandatoryQueue_in
  deriving DecidableEq, Repr

inductive L1InMsg (B : Nat)
  | forward (m : RequestMsg B)
  | response (m : ResponseMsg B)
  | mandatory (m : RubyRequest)

structure L1Context (B : Nat) where
  machineID : Nat
  address : Nat
  /-- `mapAddressToMachine(address, MachineType:Directory)`. -/
  home : Nat
  inMsg : L1InMsg B
  /-- `cacheMemory.cacheAvail(address)`. -/
  cacheAvail : Bool
  /-- `m_map.size() < m_number_of_TBEs`. -/
  tbeAvail : Bool

structure L1Work (B : Nat) where
  line : L1Line B
  requests : List (RequestMsg B) := []
  responses : List (ResponseMsg B) := []
  callbacks : List (Callback B) := []
  dequeued : List L1Port := []

inductive L1Action
  | a_issueRequest | b_issuePUT | e_sendData | ee_sendDataFromTBE | i_allocateL1CacheBlock
  | h_deallocateL1CacheBlock | m_popMandatoryQueue | n_popResponseQueue
  | o_popForwardedRequestQueue | r_load_hit | rx_load_hit | s_store_hit | sx_store_hit
  | u_writeDataToCache | v_allocateTBE | w_deallocateTBE | x_copyDataFromCacheToTBE | z_stall
  deriving DecidableEq, Repr

namespace L1Line

variable {B : Nat}

def getState (l : L1Line B) : L1State :=
  match l.tbe with
  | some tbe => tbe.tbeState
  | none =>
    match l.cacheEntry with
    | some entry => entry.cacheState
    | none => .I

def setState (state : L1State) (l : L1Line B) : L1Line B :=
  { l with
    tbe := l.tbe.map fun tbe => { tbe with tbeState := state }
    cacheEntry := l.cacheEntry.map fun entry => { entry with cacheState := state } }

/-- `setAccessPermission`: `changePermission` to `Invalid`, that of state `I`, clears `m_locked`. -/
def setAccessPermission (state : L1State) (l : L1Line B) : L1Line B :=
  { l with
    cacheEntry := l.cacheEntry.map fun entry =>
      if state = .I then { entry with locked := none } else entry }

end L1Line

namespace L1Cache

variable {B : Nat}

def mandatory_request_type_to_event : RubyRequestType → Except Fault L1Event
  | .LD => return .Load
  | .IFETCH => return .Ifetch
  | .ST => return .Store
  | .ATOMIC => return .Store
  | _ => .error (.assertion .rubyRequestType)

def loadHit (w : L1Work B) : Except Fault (L1Work B) := do
  let entry ← orFail (.assertion .cacheEntry) w.line.cacheEntry
  let (seq, cb) ← w.line.sequencer.readCallback entry.dataBlk
  return { w with
    line := { w.line with
      cacheEntry := some { entry with dataBlk := cb.after }, sequencer := seq }
    callbacks := w.callbacks ++ [cb] }

def storeHit (machineID : Nat) (w : L1Work B) : Except Fault (L1Work B) := do
  let entry ← orFail (.assertion .cacheEntry) w.line.cacheEntry
  let (seq, locked, cb) ← w.line.sequencer.writeCallback machineID (some entry.locked) entry.dataBlk
  return { w with
    line := { w.line with
      cacheEntry := some { entry with dataBlk := cb.after, locked := locked.getD entry.locked }
      sequencer := seq }
    callbacks := w.callbacks ++ [cb] }

def act (c : L1Context B) (w : L1Work B) : L1Action → Except Fault (L1Work B)
  | .a_issueRequest =>
    return { w with requests := w.requests ++ [{
      addr := c.address
      type := .GETX
      requestor := .L1Cache c.machineID
      source := .L1Cache c.machineID
      destination := .Directory c.home
      dataBlk := DataBlock.clear }] }
  | .b_issuePUT => do
    let entry ← orFail (.assertion .cacheEntry) w.line.cacheEntry
    return { w with requests := w.requests ++ [{
      addr := c.address
      type := .PUTX
      requestor := .L1Cache c.machineID
      source := .L1Cache c.machineID
      destination := .Directory c.home
      dataBlk := entry.dataBlk }] }
  | .e_sendData => do
    match c.inMsg with
    | .forward m =>
      let entry ← orFail (.assertion .cacheEntry) w.line.cacheEntry
      return { w with responses := w.responses ++ [{
        addr := c.address
        sender := .L1Cache c.machineID
        destination := m.requestor
        dataBlk := entry.dataBlk }] }
    | _ => .error (.assertion .peek)
  | .ee_sendDataFromTBE => do
    match c.inMsg with
    | .forward m =>
      let tbe ← orFail (.assertion .tbe) w.line.tbe
      return { w with responses := w.responses ++ [{
        addr := c.address
        sender := .L1Cache c.machineID
        destination := m.requestor
        dataBlk := tbe.dataBlk }] }
    | _ => .error (.assertion .peek)
  | .i_allocateL1CacheBlock =>
    match w.line.cacheEntry with
    | some _ => return w
    | none => do
      require (.assertion .cacheAvail) (c.cacheAvail = true)
      return { w with line := { w.line with cacheEntry := some {} } }
  | .h_deallocateL1CacheBlock => return { w with line := { w.line with cacheEntry := none } }
  | .m_popMandatoryQueue => return { w with dequeued := w.dequeued ++ [.mandatoryQueue_in] }
  | .n_popResponseQueue => return { w with dequeued := w.dequeued ++ [.responseNetwork_in] }
  | .o_popForwardedRequestQueue =>
    return { w with dequeued := w.dequeued ++ [.forwardRequestNetwork_in] }
  | .r_load_hit => loadHit w
  | .rx_load_hit => loadHit w
  | .s_store_hit => storeHit c.machineID w
  | .sx_store_hit => storeHit c.machineID w
  | .u_writeDataToCache => do
    match c.inMsg with
    | .response m =>
      let entry ← orFail (.assertion .cacheEntry) w.line.cacheEntry
      return { w with line := { w.line with
        cacheEntry := some { entry with dataBlk := m.dataBlk } } }
    | _ => .error (.assertion .peek)
  | .v_allocateTBE => do
    require (.assertion .tbeAbsent) (w.line.tbe.isNone = true)
    require (.assertion .tbeSize) (c.tbeAvail = true)
    return { w with line := { w.line with tbe := some {} } }
  | .w_deallocateTBE => do
    require (.assertion .tbePresent) (w.line.tbe.isSome = true)
    return { w with line := { w.line with tbe := none } }
  | .x_copyDataFromCacheToTBE => do
    let entry ← orFail (.assertion .cacheEntry) w.line.cacheEntry
    let tbe ← orFail (.assertion .tbe) w.line.tbe
    return { w with line := { w.line with tbe := some { tbe with dataBlk := entry.dataBlk } } }
  | .z_stall => return w

def transition : L1State → L1Event → Option (List L1Action × L1State)
  | .IS, .Load | .IS, .Ifetch | .IS, .Store | .IS, .Replacement => some ([.z_stall], .IS)
  | .IM, .Load | .IM, .Ifetch | .IM, .Store | .IM, .Replacement => some ([.z_stall], .IM)
  | .MI, .Load | .MI, .Ifetch | .MI, .Store | .MI, .Replacement => some ([.z_stall], .MI)
  | .II, .Load | .II, .Ifetch | .II, .Store | .II, .Replacement => some ([.z_stall], .II)
  | .MII, .Load | .MII, .Ifetch | .MII, .Store | .MII, .Replacement => some ([.z_stall], .MII)
  | .IS, .Fwd_GETX | .IS, .Inv => some ([.z_stall], .IS)
  | .IM, .Fwd_GETX | .IM, .Inv => some ([.z_stall], .IM)
  | .MI, .Inv => some ([.o_popForwardedRequestQueue], .MI)
  | .M, .Store => some ([.s_store_hit, .m_popMandatoryQueue], .M)
  | .M, .Load | .M, .Ifetch => some ([.r_load_hit, .m_popMandatoryQueue], .M)
  | .I, .Inv => some ([.o_popForwardedRequestQueue], .I)
  | .I, .Store =>
    some ([.v_allocateTBE, .i_allocateL1CacheBlock, .a_issueRequest, .m_popMandatoryQueue], .IM)
  | .I, .Load | .I, .Ifetch =>
    some ([.v_allocateTBE, .i_allocateL1CacheBlock, .a_issueRequest, .m_popMandatoryQueue], .IS)
  | .IS, .Data =>
    some ([.u_writeDataToCache, .rx_load_hit, .w_deallocateTBE, .n_popResponseQueue], .M)
  | .IM, .Data =>
    some ([.u_writeDataToCache, .sx_store_hit, .w_deallocateTBE, .n_popResponseQueue], .M)
  | .M, .Fwd_GETX => some ([.e_sendData, .o_popForwardedRequestQueue], .I)
  | .I, .Replacement => some ([.h_deallocateL1CacheBlock], .I)
  | .M, .Replacement | .M, .Inv =>
    some ([.v_allocateTBE, .b_issuePUT, .x_copyDataFromCacheToTBE, .h_deallocateL1CacheBlock], .MI)
  | .MI, .Writeback_Ack => some ([.w_deallocateTBE, .o_popForwardedRequestQueue], .I)
  | .MI, .Fwd_GETX => some ([.ee_sendDataFromTBE, .o_popForwardedRequestQueue], .II)
  | .MI, .Writeback_Nack => some ([.o_popForwardedRequestQueue], .MII)
  | .MII, .Fwd_GETX =>
    some ([.ee_sendDataFromTBE, .w_deallocateTBE, .o_popForwardedRequestQueue], .I)
  | .II, .Writeback_Nack => some ([.w_deallocateTBE, .o_popForwardedRequestQueue], .I)
  | _, _ => none

def doTransition (c : L1Context B) (event : L1Event) (l : L1Line B) :
    Except Fault (Option (L1Work B)) := do
  let (actions, next) ← orFail (.invalidTransition (.L1Cache l.getState event))
    (transition l.getState event)
  if L1Action.z_stall ∈ actions then return none
  else
    let w ← actions.foldlM (act c) { line := l }
    return some { w with line := (w.line.setState next).setAccessPermission next }

def forwardEvent : CoherenceRequestType → Except Fault L1Event
  | .GETX => return .Fwd_GETX
  | .WB_ACK => return .Writeback_Ack
  | .WB_NACK => return .Writeback_Nack
  | .INV => return .Inv
  | .PUTX => .error (.assertion .peek)

end L1Cache

end NocSwap.MIExample
