import NocSwap.Lib.Outcome
import NocSwap.Ruby.DataBlock

/-!
# The sequencer

`Sequencer` of `mem/ruby/system`, as the caches of a protocol see it.
-/

namespace NocSwap.Ruby

inductive Assertion
  /-- `assert(is_valid(cache_entry))`. -/
  | cacheEntry
  /-- `assert(is_valid(tbe))`, or a TBE pointer that is followed. -/
  | tbe
  /-- `assert(!isPresent(address))` of `TBETable::allocate`. -/
  | tbeAbsent
  /-- `assert(m_map.size() < m_number_of_TBEs)`. -/
  | tbeSize
  /-- `assert(isPresent(address))` of `TBETable::deallocate`. -/
  | tbePresent
  /-- `assert(cacheAvail(address))` of `CacheMemory::allocate`. -/
  | cacheAvail
  /-- A message that the `peek` of an action does not find. -/
  | peek
  /-- The assertions on the number of owners and sharers in `setState`. -/
  | owners
  /-- `error("Invalid RubyRequestType")`. -/
  | rubyRequestType
  /-- `assert(m_writeRequestTable.count(...))` and the like. -/
  | requestTable
  /-- The assertion on the type of the request of a callback. -/
  | requestType
  /-- The assertions of `DMASequencer` on its request. -/
  | dmaRequest
  deriving DecidableEq, Repr

inductive ControllerFault (τ : Type)
  /-- `panic("Invalid transition")`. -/
  | invalidTransition (t : τ)
  | assertion (a : Assertion)
  deriving DecidableEq, Repr

inductive RubyRequestType
  | LD | ST | ATOMIC | IFETCH | RMW_Read | Load_Linked | Store_Conditional | Locked_RMW_Read
  | Locked_RMW_Write | FLUSH
  deriving DecidableEq, Repr

/-- The packets that `Sequencer::makeRequest` tells apart. -/
inductive PacketKind
  | read | instFetch | storeCheck | write | swap | loadLocked | storeCond | lockedRMWRead
  | lockedRMWWrite | flush
  deriving DecidableEq, Repr

def PacketKind.primaryType : PacketKind → RubyRequestType
  | read => .LD
  | instFetch => .IFETCH
  | storeCheck => .RMW_Read
  | write => .ST
  | swap => .ST
  | loadLocked => .Load_Linked
  | storeCond => .Store_Conditional
  | lockedRMWRead => .Locked_RMW_Read
  | lockedRMWWrite => .Locked_RMW_Write
  | flush => .FLUSH

def PacketKind.secondaryType : PacketKind → RubyRequestType
  | read => .LD
  | instFetch => .IFETCH
  | storeCheck => .ST
  | write => .ST
  | swap => .ST
  | loadLocked => .ATOMIC
  | storeCond => .ATOMIC
  | lockedRMWRead => .ST
  | lockedRMWWrite => .ST
  | flush => .FLUSH

/-- A packet for `data.length` bytes of a line. -/
structure Packet (B : Nat) where
  kind : PacketKind
  offset : Nat
  data : List UInt8
  fits : offset + data.length ≤ B
  deriving DecidableEq, Repr

inductive RequestStatus
  | Ready | Issued | BufferFull | Aliased
  deriving DecidableEq, Repr

structure SequencerLine (B : Nat) where
  readRequest : Option (Packet B) := none
  writeRequest : Option (Packet B) := none
  /-- Whether the line is blocked on the mandatory queue. -/
  blocked : Bool := false

structure Callback (B : Nat) where
  pkt : Packet B
  success : Bool
  before : DataBlock B
  after : DataBlock B
  deriving DecidableEq

def Callback.isStore {B : Nat} (cb : Callback B) : Bool :=
  match cb.pkt.kind with
  | .write | .swap | .lockedRMWWrite => true
  | .storeCond => cb.success
  | _ => false

namespace RubyRequestType

def isWriteRequest : RubyRequestType → Bool
  | ST | RMW_Read | Load_Linked | Store_Conditional | Locked_RMW_Read | Locked_RMW_Write | FLUSH =>
    true
  | _ => false

def isWriteCallback : RubyRequestType → Bool
  | ST | ATOMIC | RMW_Read | Load_Linked | Store_Conditional | Locked_RMW_Read | Locked_RMW_Write
  | FLUSH => true
  | _ => false

def isReadCallback : RubyRequestType → Bool
  | LD | IFETCH => true
  | _ => false

def isRead : RubyRequestType → Bool
  | LD | IFETCH | RMW_Read | Locked_RMW_Read | Load_Linked => true
  | _ => false

end RubyRequestType

namespace SequencerLine

variable {B : Nat} {τ : Type}

def insertRequest (pkt : Packet B) (s : SequencerLine B) : RequestStatus × SequencerLine B :=
  let type := pkt.kind.primaryType
  if s.blocked = true ∧ type ≠ .Locked_RMW_Write then (.Aliased, s)
  else if type.isWriteRequest = true then
    if s.readRequest.isSome = true then (.Aliased, s)
    else if s.writeRequest.isSome = true then (.Aliased, s)
    else (.Ready, { s with writeRequest := some pkt })
  else
    if s.writeRequest.isSome = true then (.Aliased, s)
    else if s.readRequest.isSome = true then (.Aliased, s)
    else (.Ready, { s with readRequest := some pkt })

/-- `Sequencer::handleLlsc` of the sequencer `version`: success and the new `m_locked`. -/
def handleLlsc (version : Nat) (type : RubyRequestType) (locked : Option (Option Nat)) :
    Bool × Option (Option Nat) :=
  match locked with
  | none => (true, none)
  | some l =>
    if type = .Store_Conditional then (l == some version, some none)
    else if type = .Load_Linked then (true, some (some version))
    else if l = some version then (true, some none)
    else (true, some l)

/-- The data part of `Sequencer::hitCallback`: the block after the callback. -/
def hitCallback (pkt : Packet B) (llscSuccess : Bool) (data : DataBlock B) : DataBlock B :=
  let type := pkt.kind.primaryType
  if pkt.kind = .flush then data
  else if type.isRead = true then data
  else if pkt.kind = .swap then data.setData pkt.data pkt.offset
  else if type ≠ .Store_Conditional ∨ llscSuccess = true then data.setData pkt.data pkt.offset
  else data

def readCallback (data : DataBlock B) (s : SequencerLine B) :
    Except (ControllerFault τ) (SequencerLine B × Callback B) := do
  let pkt ← orFail (.assertion .requestTable) s.readRequest
  require (.assertion .requestType) (pkt.kind.primaryType.isReadCallback = true)
  return ({ s with readRequest := none }, ⟨pkt, true, data, hitCallback pkt true data⟩)

def writeCallback (version : Nat) (locked : Option (Option Nat)) (data : DataBlock B)
    (s : SequencerLine B) :
    Except (ControllerFault τ) (SequencerLine B × Option (Option Nat) × Callback B) := do
  let pkt ← orFail (.assertion .requestTable) s.writeRequest
  let type := pkt.kind.primaryType
  require (.assertion .requestType) (type.isWriteCallback = true)
  let (success, locked) := handleLlsc version type locked
  let blocked :=
    if type = .Locked_RMW_Read then true
    else if type = .Locked_RMW_Write then false
    else s.blocked
  return ({ s with writeRequest := none, blocked := blocked }, locked,
    ⟨pkt, success, data, hitCallback pkt success data⟩)

end SequencerLine

end NocSwap.Ruby
