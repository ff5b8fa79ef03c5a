import NocSwap.Ruby.Sequencer

/-!
# MI_example: machines and messages

The messages of `MI_example-msg.sm` and the states and events of the three machines.
-/

namespace NocSwap.MIExample

open Ruby (DataBlock)

structure Params where
  /-- The lines of the physical memory are those below `numLines`. -/
  numLines : Nat
  /-- `mapAddressToMachine(address, MachineType:Directory)`. -/
  home : Nat → Nat
  /-- `addressToCacheSet` of each cache. -/
  cacheSet : Nat → Nat → Nat
  /-- `m_cache_assoc` of each cache. -/
  cacheAssoc : Nat → Nat
  /-- `m_number_of_TBEs`. -/
  numberOfTBEs : Nat
  /-- `m_max_outstanding_requests` of the sequencers. -/
  maxOutstanding : Nat
  /-- `m_max_outstanding_requests` of the DMA sequencers. -/
  dmaMaxOutstanding : Nat
  /-- Whether the network keeps the order of messages. -/
  ordered : Bool

inductive MachineID
  | L1Cache (i : Nat)
  | Directory (d : Nat)
  | DMA (k : Nat)
  deriving DecidableEq, Repr

inductive CoherenceRequestType
  | GETX | PUTX | WB_ACK | WB_NACK | INV
  deriving DecidableEq, Repr

/-- `RequestMsg`, on the request and on the forward network. -/
structure RequestMsg (B : Nat) where
  addr : Nat
  type : CoherenceRequestType
  requestor : MachineID
  source : MachineID
  destination : MachineID
  dataBlk : DataBlock B
  deriving DecidableEq

structure ResponseMsg (B : Nat) where
  addr : Nat
  sender : MachineID
  destination : MachineID
  dataBlk : DataBlock B
  deriving DecidableEq

inductive DMARequestType
  | READ | WRITE
  deriving DecidableEq, Repr

inductive DMAResponseType
  | DATA | ACK
  deriving DecidableEq, Repr

structure DMARequestMsg (B : Nat) where
  type : DMARequestType
  offset : Nat
  lineAddress : Nat
  requestor : MachineID
  destination : MachineID
  dataBlk : DataBlock B
  len : Nat
  deriving DecidableEq

structure DMAResponseMsg (B : Nat) where
  type : DMAResponseType
  lineAddress : Nat
  source : MachineID
  destination : MachineID
  dataBlk : DataBlock B
  deriving DecidableEq

/-- `RubyRequest` in the mandatory queue of the cache `cache`. -/
structure RubyRequest where
  cache : Nat
  lineAddress : Nat
  type : Ruby.RubyRequestType
  deriving DecidableEq, Repr

/-- `SequencerMsg` in the mandatory queue of the DMA controller `dma`. -/
structure SequencerMsg (B : Nat) where
  dma : Nat
  lineAddress : Nat
  offset : Nat
  write : Bool
  dataBlk : DataBlock B
  len : Nat
  deriving DecidableEq

/-- A request for the memory: a read of the block, or a write of bytes from its beginning on. -/
structure MemoryRequest where
  directory : Nat
  addr : Nat
  originalRequestor : MachineID
  write : Option (List UInt8)
  deriving DecidableEq, Repr

inductive MemoryRequestType
  | MEMORY_READ | MEMORY_WB
  deriving DecidableEq, Repr

/-- `MemoryMsg` in the response queue of the directory `directory`. -/
structure MemoryMsg (B : Nat) where
  directory : Nat
  addr : Nat
  type : MemoryRequestType
  originalRequestor : MachineID
  dataBlk : DataBlock B
  deriving DecidableEq

inductive L1State
  | I | II | M | MI | MII | IS | IM
  deriving DecidableEq, Repr

inductive L1Event
  | Load | Ifetch | Store | Data | Fwd_GETX | Inv | Replacement | Writeback_Ack | Writeback_Nack
  deriving DecidableEq, Repr

inductive DirState
  | I | M | M_DRD | M_DWR | M_DWRI | M_DRDI | IM | MI | ID | ID_W
  deriving DecidableEq, Repr

inductive DirEvent
  | GETX | PUTX | PUTX_NotOwner | DMA_READ | DMA_WRITE | Memory_Data | Memory_Ack
  deriving DecidableEq, Repr

inductive DMAState
  | READY | BUSY_RD | BUSY_WR
  deriving DecidableEq, Repr

inductive DMAEvent
  | ReadRequest | WriteRequest | Data | Ack
  deriving DecidableEq, Repr

inductive InvalidTransition
  | L1Cache (state : L1State) (event : L1Event)
  | Directory (state : DirState) (event : DirEvent)
  | DMA (state : DMAState) (event : DMAEvent)
  deriving DecidableEq, Repr

abbrev Fault : Type := Ruby.ControllerFault InvalidTransition

end NocSwap.MIExample
