import Mathlib.Logic.Function.Basic
import NocSwap.Lib.Outcome

/-!
# The DMA sequencer

`DMASequencer` cuts a request into pieces of one line and issues each when the one before is answered.
Its requests come from `RubyPort`, which asserts that they lie in one line, and its messages are
answered by the DMA controller, in any order.
-/

namespace NocSwap.Ruby

namespace DMASequencer

/-- The assertions. -/
inductive Fault
  | noRequest
  | outstanding
  | unaligned
  | write
deriving DecidableEq

structure Packet where
  addr : Nat
  write : Bool
  data : List UInt8

structure SequencerMsg where
  physicalAddress : Nat
  lineAddress : Nat
  write : Bool
  len : Nat
  data : List UInt8

structure DMARequest where
  startPaddr : Nat
  len : Nat
  write : Bool
  bytesCompleted : Nat
  bytesIssued : Nat
  data : List UInt8

end DMASequencer

open DMASequencer

structure DMASequencer where
  requestTable : Nat → Option DMARequest := fun _ => none
  outstandingCount : Nat := 0
  maxOutstandingRequests : Nat
  /-- What has been put into `m_mandatory_q_ptr`. -/
  issued : List SequencerMsg := []
  /-- The requests for whose packets `ruby_hit_callback` has been called. -/
  hits : List DMARequest := []

namespace DMASequencer

variable (B : Nat)

def makeLineAddress (addr : Nat) : Nat := addr - addr % B

/-- `DMASequencer::makeRequest`, with whether the request is issued. -/
def makeRequest (s : DMASequencer) (pkt : Packet) : Bool × DMASequencer :=
  if s.outstandingCount = s.maxOutstandingRequests then (false, s)
  else
    let line := makeLineAddress B pkt.addr
    match s.requestTable line with
    | some _ => (false, s)
    | none =>
      let offset := pkt.addr % B
      let len := if offset + pkt.data.length ≤ B then pkt.data.length else B - offset
      let msg : SequencerMsg := ⟨pkt.addr, line, pkt.write, len, pkt.data.take len⟩
      (true, { s with
        requestTable := Function.update s.requestTable line
          (some ⟨pkt.addr, pkt.data.length, pkt.write, 0, len, pkt.data⟩)
        outstandingCount := s.outstandingCount + 1
        issued := s.issued ++ [msg] })

def issueNext (s : DMASequencer) (address : Nat) : Except Fault DMASequencer := do
  let r ← orFail .noRequest (s.requestTable address)
  require .outstanding (s.outstandingCount ≤ s.maxOutstandingRequests)
  let r := { r with bytesCompleted := r.bytesIssued }
  if r.len = r.bytesCompleted then
    return { s with
      requestTable := Function.update s.requestTable address none
      outstandingCount := s.outstandingCount - 1
      hits := s.hits ++ [r] }
  let paddr := r.startPaddr + r.bytesCompleted
  require .unaligned (paddr % B = 0)
  let len := if r.len - r.bytesCompleted < B then r.len - r.bytesCompleted else B
  let msg : SequencerMsg :=
    ⟨paddr, makeLineAddress B paddr, r.write, len, (r.data.drop r.bytesCompleted).take len⟩
  return { s with
    requestTable := Function.update s.requestTable address
      (some { r with bytesIssued := r.bytesIssued + len })
    issued := s.issued ++ [msg] }

def dataCallback (s : DMASequencer) (dblk : List UInt8) (address : Nat) :
    Except Fault DMASequencer := do
  let r ← orFail .noRequest (s.requestTable address)
  let len := r.bytesIssued - r.bytesCompleted
  let offset := if r.bytesCompleted = 0 then r.startPaddr % B else 0
  require .write (r.write = false)
  let data := r.data.take r.bytesCompleted ++ (dblk.drop offset).take len ++
    r.data.drop (r.bytesCompleted + len)
  issueNext B { s with
    requestTable := Function.update s.requestTable address (some { r with data := data }) } address

def ackCallback (s : DMASequencer) (address : Nat) : Except Fault DMASequencer := do
  require .noRequest ((s.requestTable address).isSome = true)
  issueNext B s address

def answer (mem : Nat → List UInt8) (s : DMASequencer) (m : SequencerMsg) :
    Except Fault DMASequencer :=
  if m.write then ackCallback B s m.lineAddress
  else dataCallback B s (mem m.lineAddress) m.lineAddress

/-- A sequencer between the port and the DMA controller. -/
structure Port where
  seq : DMASequencer
  /-- The packets for which `makeRequest` has returned `RequestStatus_Issued`. -/
  accepted : List Packet := []
  /-- The messages that have been issued and not yet been answered. -/
  waiting : List SequencerMsg := []
  /-- The messages that have been answered, each with the block of its line. -/
  answers : List (SequencerMsg × List UInt8) := []

inductive Event
  /-- The port calls `makeRequest`. -/
  | request (pkt : Packet)
  /-- The controller answers one of the waiting messages. -/
  | answer (n : Nat) (dblk : List UInt8)

def Port.step (p : Port) : Event → Except Fault Port
  | .request pkt =>
    let (issued, seq) := makeRequest B p.seq pkt
    .ok { p with
      seq := seq
      accepted := if issued then p.accepted ++ [pkt] else p.accepted
      waiting := p.waiting ++ seq.issued.drop p.seq.issued.length }
  | .answer n dblk =>
    match p.waiting[n]? with
    | none => .ok p
    | some m => do
      let seq ← answer B (fun _ => dblk) p.seq m
      .ok { p with
        seq := seq
        waiting := p.waiting.eraseIdx n ++ seq.issued.drop p.seq.issued.length
        answers := p.answers ++ [(m, dblk)] }

def Port.run (p : Port) (es : List Event) : Except Fault Port := es.foldlM (Port.step B) p

end DMASequencer

end NocSwap.Ruby
