import Mathlib.Data.List.AList
import NocSwap.Ruby.BufferRun

/-!
# The stalled buffers of a controller

An `AbstractController` records, by address, the buffers that hold stalled messages, one for each
in_port.
-/

namespace NocSwap

structure AbstractController where
  inPorts : Nat
  buffers : Nat → MessageBuffer
  waitingBuffers : AList fun _ : Nat => List (Option Nat)

namespace AbstractController

/-- `AbstractController::stallBuffer`, while the in_port of rank `curInPort` is processed. -/
def stallBuffer (c : AbstractController) (curInPort buf addr : Nat) :
    Except Fault AbstractController := do
  require .portOutOfRange (curInPort < c.inPorts)
  let msgVec := (c.waitingBuffers.lookup addr).getD (List.replicate c.inPorts none)
  return { c with
    waitingBuffers := c.waitingBuffers.insert addr (msgVec.set curInPort (some buf)) }

def onBuffers (c : AbstractController) (f : MessageBuffer → Except Fault MessageBuffer)
    (bufs : List Nat) : Except Fault AbstractController :=
  bufs.foldlM (fun c buf => do
    let b ← f (c.buffers buf)
    return { c with buffers := Function.update c.buffers buf b }) c

def wakeUpBelow (c : AbstractController) (rank addr now : Nat) : Except Fault AbstractController :=
  match c.waitingBuffers.lookup addr with
  | none => return c
  | some msgVec => do
    let c ← c.onBuffers (·.reanalyzeMessages addr now) ((msgVec.take rank).reverse.filterMap id)
    return { c with waitingBuffers := c.waitingBuffers.erase addr }

/-- `AbstractController::wakeUpBuffers(addr)`, while the in_port of rank `curInPort` is processed. -/
def wakeUpBuffers (c : AbstractController) (curInPort addr now : Nat) :
    Except Fault AbstractController :=
  c.wakeUpBelow curInPort addr now

/-- `AbstractController::wakeUpAllBuffers(addr)`. -/
def wakeUpAllBuffersOf (c : AbstractController) (addr now : Nat) :
    Except Fault AbstractController :=
  c.wakeUpBelow c.inPorts addr now

/-- `AbstractController::wakeUpAllBuffers()`. -/
def wakeUpAllBuffers (c : AbstractController) (now : Nat) : Except Fault AbstractController := do
  let c ← c.onBuffers (·.reanalyzeAllMessages now)
    (c.waitingBuffers.entries.flatMap fun e => e.2.filterMap id).eraseDups
  return { c with waitingBuffers := ∅ }

/-- The actions of a controller; `stall_and_wait` calls `stallBuffer` and `stallMessage`. -/
inductive Op
  | stallAndWait (curInPort buf addr now : Nat)
  | wakeUpBuffers (curInPort addr now : Nat)
  | wakeUpAllBuffersOf (addr now : Nat)
  | wakeUpAllBuffers (now : Nat)
  | enqueue (buf : Nat) (flags : MessageBuffer.RubyFlags) (m : Message) (now delta rnd : Nat)
  | dequeue (buf now : Nat) (decrementMessages : Bool)
  | recycle (buf now recycleLatency : Nat)
  | delayHead (buf : Nat) (flags : MessageBuffer.RubyFlags) (now delta rnd : Nat)

def exec (c : AbstractController) : Op → Except Fault AbstractController
  | .stallAndWait curInPort buf addr now => do
    let c ← c.stallBuffer curInPort buf addr
    c.onBuffers (·.stallMessage addr now) [buf]
  | .wakeUpBuffers curInPort addr now => c.wakeUpBuffers curInPort addr now
  | .wakeUpAllBuffersOf addr now => c.wakeUpAllBuffersOf addr now
  | .wakeUpAllBuffers now => c.wakeUpAllBuffers now
  | .enqueue buf flags m now delta rnd =>
    c.onBuffers (fun b => Prod.fst <$> b.enqueue flags m now delta rnd) [buf]
  | .dequeue buf now decrement => c.onBuffers (fun b => Prod.fst <$> b.dequeue now decrement) [buf]
  | .recycle buf now latency => c.onBuffers (fun b => Prod.fst <$> b.recycle now latency) [buf]
  | .delayHead buf flags now delta rnd =>
    c.onBuffers (fun b => Prod.fst <$> b.delayHead flags now delta rnd) [buf]

end AbstractController

end NocSwap
