import NocSwap.Lib.Channel
import NocSwap.Protocol.MI.DMA
import NocSwap.Protocol.MI.Directory
import NocSwap.Protocol.MI.L1Cache

/-!
# MI_example: the system

Caches with their sequencers, directories, DMA controllers and the memory, joined by channels.
-/

namespace NocSwap.MIExample

open Function

open Ruby (DataBlock Callback Packet)

inductive LogEntry (B : Nat)
  | callback (cache line : Nat) (cb : Callback B)
  /-- A write to the memory for a DMA controller, or upon a write-back. -/
  | memoryWrite (line : Nat) (dma : Option MachineID) (before after : DataBlock B)
  | dmaRead (line : Nat) (data : DataBlock B)
  | dmaCallback (dma line : Nat) (cb : DMACallback B)
  deriving DecidableEq

structure System (B : Nat) where
  l1 : Nat → Nat → L1Line B := fun _ _ => {}
  dir : Nat → DirLine B := fun _ => {}
  dma : Nat → Nat → DMALine B := fun _ _ => {}
  memory : Nat → DataBlock B
  mandatory : MsgChannel RubyRequest := {}
  requests : MsgChannel (RequestMsg B) := {}
  forwards : MsgChannel (RequestMsg B) := {}
  responses : MsgChannel (ResponseMsg B) := {}
  dmaMandatory : MsgChannel (SequencerMsg B) := {}
  dmaRequests : MsgChannel (DMARequestMsg B) := {}
  dmaResponses : MsgChannel (DMAResponseMsg B) := {}
  memoryRequests : List MemoryRequest := []
  memoryResponses : MsgChannel (MemoryMsg B) := {}
  log : List (LogEntry B) := []

def System.init {B : Nat} (memory : Nat → DataBlock B) : System B := { memory := memory }

inductive VNet
  | mandatory | request | forward | response | dmaMandatory | dmaRequest | dmaResponse | memory
  deriving DecidableEq, Repr

inductive Label (B : Nat)
  /-- `Sequencer::makeRequest`. -/
  | makeRequest (cache line : Nat) (pkt : Packet B)
  /-- `forwardRequestNetwork_in` of a cache. -/
  | forwardIn (cache : Nat)
  /-- `responseNetwork_in` of a cache. -/
  | responseIn (cache : Nat)
  /-- `mandatoryQueue_in` of a cache, with the victim chosen. -/
  | mandatoryIn (cache victim : Nat)
  /-- `requestQueue_in` of a directory. -/
  | requestIn (directory : Nat)
  /-- `dmaRequestQueue_in` of a directory. -/
  | dmaRequestIn (directory : Nat)
  /-- `memQueue_in` of a directory. -/
  | memoryIn (directory : Nat)
  /-- `DMASequencer::makeRequest`. -/
  | makeDMARequest (dma line : Nat) (pkt : DMAPacket B)
  /-- `dmaRequestQueue_in` of a DMA controller. -/
  | dmaMandatoryIn (dma : Nat)
  /-- `dmaResponseQueue_in` of a DMA controller. -/
  | dmaResponseIn (dma : Nat)
  /-- The message at place `n` of a channel arrives. -/
  | deliver (v : VNet) (n : Nat)
  /-- The recycled message at place `n` comes back. -/
  | requeue (v : VNet) (n : Nat)
  /-- The memory serves the request at place `n`. -/
  | serve (n : Nat)

namespace System

variable (P : Params) {B : Nat}

def forwardPort (i : Nat) (m : RequestMsg B) : Bool := m.destination = .L1Cache i

def responsePort (i : Nat) (m : ResponseMsg B) : Bool := m.destination = .L1Cache i

def mandatoryPort (i : Nat) (m : RubyRequest) : Bool := m.cache = i

def requestPort (d : Nat) (m : RequestMsg B) : Bool := m.destination = .Directory d

def dmaRequestPort (d : Nat) (m : DMARequestMsg B) : Bool := m.destination = .Directory d

def memoryPort (d : Nat) (m : MemoryMsg B) : Bool := m.directory = d

def dmaMandatoryPort (k : Nat) (m : SequencerMsg B) : Bool := m.dma = k

def dmaResponsePort (k : Nat) (m : DMAResponseMsg B) : Bool := m.destination = .DMA k

def l1TBEAvail (s : System B) (i : Nat) : Bool :=
  (List.range P.numLines).countP (fun x => (s.l1 i x).tbe.isSome) < P.numberOfTBEs

def dirTBEAvail (s : System B) (d : Nat) : Bool :=
  (List.range P.numLines).countP (fun x => P.home x = d && (s.dir x).tbe.isSome) < P.numberOfTBEs

def dmaTBEAvail (s : System B) (k : Nat) : Bool :=
  (List.range P.numLines).countP (fun x => (s.dma k x).tbe.isSome) < P.numberOfTBEs

def cacheAvail (s : System B) (i x : Nat) : Bool :=
  (s.l1 i x).cacheEntry.isSome ||
    (List.range P.numLines).countP
      (fun y => P.cacheSet i y = P.cacheSet i x && (s.l1 i y).cacheEntry.isSome) < P.cacheAssoc i

def outstanding (s : System B) (i : Nat) : Nat :=
  (List.range P.numLines).countP (fun x => (s.l1 i x).sequencer.readRequest.isSome) +
    (List.range P.numLines).countP (fun x => (s.l1 i x).sequencer.writeRequest.isSome)

def dmaOutstanding (s : System B) (k : Nat) : Nat :=
  (List.range P.numLines).countP (fun x => (s.dma k x).request.isSome)

def setL1 (i x : Nat) (l : L1Line B) (s : System B) : System B :=
  { s with l1 := update s.l1 i (update (s.l1 i) x l) }

def setDir (x : Nat) (l : DirLine B) (s : System B) : System B :=
  { s with dir := update s.dir x l }

def setDMA (k x : Nat) (l : DMALine B) (s : System B) : System B :=
  { s with dma := update s.dma k (update (s.dma k) x l) }

def makeRequest (i x : Nat) (pkt : Packet B) (s : System B) : System B :=
  if x < P.numLines ∧ s.outstanding P i < P.maxOutstanding then
    match (s.l1 i x).sequencer.insertRequest pkt with
    | (.Ready, seq) =>
      { s.setL1 i x { s.l1 i x with sequencer := seq } with
        mandatory := s.mandatory.send [⟨i, x, pkt.kind.secondaryType⟩] }
    | _ => s
  else s

def applyL1 (i x : Nat) (w : L1Work B) (s : System B) : System B :=
  { s.setL1 i x w.line with
    requests := s.requests.send w.requests
    responses :=
      (if L1Port.responseNetwork_in ∈ w.dequeued then s.responses.pop (responsePort i)
        else s.responses).send w.responses
    forwards :=
      if L1Port.forwardRequestNetwork_in ∈ w.dequeued then s.forwards.pop (forwardPort i)
      else s.forwards
    mandatory :=
      if L1Port.mandatoryQueue_in ∈ w.dequeued then s.mandatory.pop (mandatoryPort i)
      else s.mandatory
    log := s.log ++ w.callbacks.map (.callback i x) }

def triggerL1 (i x : Nat) (event : L1Event) (m : L1InMsg B) (s : System B) :
    Except Fault (System B) := do
  let w ← L1Cache.doTransition
    { machineID := i
      address := x
      home := P.home x
      inMsg := m
      cacheAvail := s.cacheAvail P i x
      tbeAvail := s.l1TBEAvail P i } event (s.l1 i x)
  match w with
  | some w => return s.applyL1 i x w
  | none => return s

def forwardIn (i : Nat) (s : System B) : Except Fault (System B) :=
  match s.forwards.head (forwardPort i) with
  | none => return s
  | some m =>
    if (s.l1 i m.addr).sequencer.blocked = true then
      return { s with forwards := s.forwards.delayHead (forwardPort i) }
    else do
      let event ← L1Cache.forwardEvent m.type
      s.triggerL1 P i m.addr event (.forward m)

def responseIn (i : Nat) (s : System B) : Except Fault (System B) :=
  match s.responses.head (responsePort i) with
  | none => return s
  | some m =>
    if (s.l1 i m.addr).sequencer.blocked = true then
      return { s with responses := s.responses.delayHead (responsePort i) }
    else s.triggerL1 P i m.addr .Data (.response m)

def IsVictim (s : System B) (i x victim : Nat) : Prop :=
  victim < P.numLines ∧ P.cacheSet i victim = P.cacheSet i x ∧
    (s.l1 i victim).cacheEntry.isSome = true

instance (s : System B) (i x victim : Nat) : Decidable (s.IsVictim P i x victim) :=
  inferInstanceAs (Decidable (_ ∧ _))

def mandatoryIn (i victim : Nat) (s : System B) : Except Fault (System B) :=
  match s.mandatory.head (mandatoryPort i) with
  | none => return s
  | some m =>
    if (s.l1 i m.lineAddress).cacheEntry.isNone = true ∧
        s.cacheAvail P i m.lineAddress = false then
      if s.IsVictim P i m.lineAddress victim then
        s.triggerL1 P i victim .Replacement (.mandatory m)
      else return s
    else do
      let event ← L1Cache.mandatory_request_type_to_event m.type
      s.triggerL1 P i m.lineAddress event (.mandatory m)

def applyDir (d x : Nat) (w : DirWork B) (s : System B) : System B :=
  { s.setDir x w.line with
    forwards := s.forwards.send w.forwards
    responses := s.responses.send w.responses
    dmaResponses := s.dmaResponses.send w.dmaResponses
    memoryRequests := s.memoryRequests ++ w.memoryRequests
    requests :=
      if DirPort.requestQueue_in ∈ w.dequeued then s.requests.pop (requestPort d)
      else if DirPort.requestQueue_in ∈ w.recycled then s.requests.recycle (requestPort d)
      else s.requests
    dmaRequests :=
      if DirPort.dmaRequestQueue_in ∈ w.dequeued then s.dmaRequests.pop (dmaRequestPort d)
      else if DirPort.dmaRequestQueue_in ∈ w.recycled then s.dmaRequests.recycle (dmaRequestPort d)
      else s.dmaRequests
    memoryResponses :=
      if DirPort.memQueue_in ∈ w.dequeued then s.memoryResponses.pop (memoryPort d)
      else s.memoryResponses
    log := s.log ++ (w.dmaResponses.filter fun m => m.type = .DATA).map fun m =>
      .dmaRead x m.dataBlk }

def triggerDir (d x : Nat) (event : DirEvent) (m : DirInMsg B) (s : System B) :
    Except Fault (System B) := do
  let w ← Directory.doTransition
    { machineID := d, address := x, inMsg := m, tbeAvail := s.dirTBEAvail P d } event (s.dir x)
  return s.applyDir d x w

def requestIn (d : Nat) (s : System B) : Except Fault (System B) :=
  match s.requests.head (requestPort d) with
  | none => return s
  | some m => do
    let event ← Directory.requestEvent m (s.dir m.addr)
    s.triggerDir P d m.addr event (.request m)

def dmaRequestIn (d : Nat) (s : System B) : Except Fault (System B) :=
  match s.dmaRequests.head (dmaRequestPort d) with
  | none => return s
  | some m =>
    s.triggerDir P d m.lineAddress (Directory.dmaRequestEvent m.type) (.dmaRequest m)

def memoryIn (d : Nat) (s : System B) : Except Fault (System B) :=
  match s.memoryResponses.head (memoryPort d) with
  | none => return s
  | some m => s.triggerDir P d m.addr (Directory.memoryEvent m.type) (.memory m)

/-- `DMASequencer::makeRequest`. -/
def makeDMARequest (k x : Nat) (pkt : DMAPacket B) (s : System B) : System B :=
  if x < P.numLines ∧ s.dmaOutstanding P k ≠ P.dmaMaxOutstanding then
    match (s.dma k x).makeRequest k x pkt with
    | (_, l, ms) => { s.setDMA k x l with dmaMandatory := s.dmaMandatory.send ms }
  else s

def applyDMA (k x : Nat) (w : DMAWork B) (s : System B) : System B :=
  { s.setDMA k x w.line with
    dmaRequests := s.dmaRequests.send w.requests
    dmaMandatory :=
      if DMAPort.dmaRequestQueue_in ∈ w.dequeued then s.dmaMandatory.pop (dmaMandatoryPort k)
      else if w.stalled = true then s.dmaMandatory.recycle (dmaMandatoryPort k)
      else if w.wokenUp = true then s.dmaMandatory.requeueAll (dmaMandatoryPort k)
      else s.dmaMandatory
    dmaResponses :=
      if DMAPort.dmaResponseQueue_in ∈ w.dequeued then s.dmaResponses.pop (dmaResponsePort k)
      else s.dmaResponses
    log := s.log ++ w.callbacks.map (.dmaCallback k x) }

def triggerDMA (k x : Nat) (event : DMAEvent) (m : DMAInMsg B) (s : System B) :
    Except Fault (System B) := do
  let w ← DMA.doTransition
    { machineID := k
      address := x
      home := P.home x
      inMsg := m
      tbeAvail := s.dmaTBEAvail P k } event (s.dma k x)
  return s.applyDMA k x w

def dmaMandatoryIn (k : Nat) (s : System B) : Except Fault (System B) :=
  match s.dmaMandatory.head (dmaMandatoryPort k) with
  | none => return s
  | some m => s.triggerDMA P k m.lineAddress (DMA.requestEvent m) (.request m)

def dmaResponseIn (k : Nat) (s : System B) : Except Fault (System B) :=
  match s.dmaResponses.head (dmaResponsePort k) with
  | none => return s
  | some m => s.triggerDMA P k m.lineAddress (DMA.responseEvent m.type) (.response m)

def arrive {μ : Type} (same : μ → μ → Bool) (n : Nat) (c : MsgChannel μ) : MsgChannel μ :=
  if P.ordered = true → c.Foremost same n then c.deliver n else c

def deliver (v : VNet) (n : Nat) (s : System B) : System B :=
  match v with
  | .mandatory => { s with mandatory := s.mandatory.deliver n }
  | .request =>
    { s with requests := arrive P (fun m m' =>
        m.source = m'.source && m.destination = m'.destination) n s.requests }
  | .forward =>
    { s with forwards := arrive P (fun m m' =>
        m.source = m'.source && m.destination = m'.destination) n s.forwards }
  | .response =>
    { s with responses := arrive P (fun m m' =>
        m.sender = m'.sender && m.destination = m'.destination) n s.responses }
  | .dmaMandatory => { s with dmaMandatory := s.dmaMandatory.deliver n }
  | .dmaRequest =>
    { s with dmaRequests := arrive P (fun m m' =>
        m.requestor = m'.requestor && m.destination = m'.destination) n s.dmaRequests }
  | .dmaResponse =>
    { s with dmaResponses := arrive P (fun m m' =>
        m.source = m'.source && m.destination = m'.destination) n s.dmaResponses }
  | .memory => { s with memoryResponses := s.memoryResponses.deliver n }

def requeue (v : VNet) (n : Nat) (s : System B) : System B :=
  match v with
  | .request => { s with requests := s.requests.requeue n }
  | .dmaRequest => { s with dmaRequests := s.dmaRequests.requeue n }
  | _ => s

def serve (n : Nat) (s : System B) : System B :=
  match s.memoryRequests[n]? with
  | none => s
  | some r =>
    let s := { s with memoryRequests := s.memoryRequests.eraseIdx n }
    match r.write with
    | none =>
      let m : MemoryMsg B :=
        ⟨r.directory, r.addr, .MEMORY_READ, r.originalRequestor, s.memory r.addr⟩
      { s with memoryResponses := s.memoryResponses.send [m] }
    | some data =>
      let m : MemoryMsg B :=
        ⟨r.directory, r.addr, .MEMORY_WB, r.originalRequestor, DataBlock.clear⟩
      let after := (s.memory r.addr).setData data 0
      { s with
        memory := update s.memory r.addr after
        memoryResponses := s.memoryResponses.send [m]
        log := s.log ++ [.memoryWrite r.addr (s.dir r.addr).dmaWriter (s.memory r.addr) after] }

def exec (s : System B) : Label B → Except Fault (System B)
  | .makeRequest i x pkt => return s.makeRequest P i x pkt
  | .forwardIn i => s.forwardIn P i
  | .responseIn i => s.responseIn P i
  | .mandatoryIn i victim => s.mandatoryIn P i victim
  | .requestIn d => s.requestIn P d
  | .dmaRequestIn d => s.dmaRequestIn P d
  | .memoryIn d => s.memoryIn P d
  | .makeDMARequest k x pkt => return s.makeDMARequest P k x pkt
  | .dmaMandatoryIn k => s.dmaMandatoryIn P k
  | .dmaResponseIn k => s.dmaResponseIn P k
  | .deliver v n => return s.deliver P v n
  | .requeue v n => return s.requeue v n
  | .serve n => return s.serve n

def run (ls : List (Label B)) (s : System B) : Except Fault (System B) := ls.foldlM (exec P) s

section Runs

def missSteps (i x d : Nat) (pkt : Packet B) : List (Label B) :=
  [.makeRequest i x pkt, .deliver .mandatory 0, .mandatoryIn i 0, .deliver .request 0, .requestIn d,
    .serve 0, .deliver .memory 0, .memoryIn d, .deliver .response 0, .responseIn i]

def forwardSteps (i o x d : Nat) (pkt : Packet B) : List (Label B) :=
  [.makeRequest i x pkt, .deliver .mandatory 0, .mandatoryIn i 0, .deliver .request 0, .requestIn d,
    .deliver .forward 0, .forwardIn o, .deliver .response 0, .responseIn i]

def hitSteps (i x : Nat) (pkt : Packet B) : List (Label B) :=
  [.makeRequest i x pkt, .deliver .mandatory 0, .mandatoryIn i 0]

def dmaSteps (k x d : Nat) (pkt : DMAPacket B) : List (Label B) :=
  [.makeDMARequest k x pkt, .deliver .dmaMandatory 0, .dmaMandatoryIn k, .deliver .dmaRequest 0,
    .dmaRequestIn d]

end Runs

end System

end NocSwap.MIExample
