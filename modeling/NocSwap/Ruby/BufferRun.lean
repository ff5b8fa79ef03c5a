import NocSwap.Ruby.MessageBuffer

/-!
# Sequences of operations on a message buffer

A controller and the network use a buffer through seven operations.
-/

namespace NocSwap

open MessageBuffer (RubyFlags)

inductive BufferOp where
  | enqueue (flags : RubyFlags) (m : Message) (currentTime delta rnd : Nat)
  | dequeue (currentTime : Nat) (decrementMessages : Bool)
  | delayHead (flags : RubyFlags) (currentTime delta rnd : Nat)
  | recycle (currentTime recycleLatency : Nat)
  | stallMessage (addr currentTime : Nat)
  | reanalyzeMessages (addr currentTime : Nat)
  | reanalyzeAllMessages (currentTime : Nat)
  deriving DecidableEq

/-- The arrival time of an enqueued message, or the message a dequeue removes. -/
inductive BufferResult where
  | enqueued (arrival : Nat)
  | dequeued (m : Message)
  | moved
  deriving DecidableEq

namespace BufferOp

def time : BufferOp → Nat
  | .enqueue _ _ t _ _ => t
  | .dequeue t _ => t
  | .delayHead _ t _ _ => t
  | .recycle t _ => t
  | .stallMessage _ t => t
  | .reanalyzeMessages _ t => t
  | .reanalyzeAllMessages t => t

def exec (b : MessageBuffer) : BufferOp → Except Fault (MessageBuffer × BufferResult)
  | .enqueue flags m t delta rnd => do
    let (b, arrival) ← b.enqueue flags m t delta rnd
    return (b, .enqueued arrival)
  | .dequeue t decrement => do
    let (b, m) ← b.dequeue t decrement
    return (b, .dequeued m)
  | .delayHead flags t delta rnd => do
    let (b, arrival) ← b.delayHead flags t delta rnd
    return (b, .enqueued arrival)
  | .recycle t latency => do
    let (b, _) ← b.recycle t latency
    return (b, .moved)
  | .stallMessage addr t => do
    let b ← b.stallMessage addr t
    return (b, .moved)
  | .reanalyzeMessages addr t => do
    let b ← b.reanalyzeMessages addr t
    return (b, .moved)
  | .reanalyzeAllMessages t => do
    let b ← b.reanalyzeAllMessages t
    return (b, .moved)

def enqueued : BufferOp → List Message
  | .enqueue _ m _ _ _ => [m]
  | _ => []

/-- The stalled messages an operation puts back on the heap, with their addresses, in order. -/
def restored (b : MessageBuffer) : BufferOp → List (Nat × Message)
  | .reanalyzeMessages addr _ => ((b.stallMsgMap.lookup addr).getD []).map fun m => (addr, m)
  | .reanalyzeAllMessages _ => b.stallMsgMap.flatMap fun e => e.2.map fun m => (e.1, m)
  | _ => []

end BufferOp

def BufferResult.dequeuedMessages : BufferResult → List Message
  | .dequeued m => [m]
  | _ => []

namespace MessageBuffer

def stalled (b : MessageBuffer) : List Message := b.stallMsgMap.flatMap Prod.snd

def messages (b : MessageBuffer) : List Message := b.prioHeap ++ b.stalled

/-- The operations `ops`, each allowed by `C`, lead from `b` to `b'` and dequeue `out`. -/
inductive Run (C : MessageBuffer → BufferOp → Prop) :
    MessageBuffer → List BufferOp → List Message → MessageBuffer → Prop
  | nil (b : MessageBuffer) : Run C b [] [] b
  | cons {b b' b'' : MessageBuffer} {op : BufferOp} {ops : List BufferOp} {res : BufferResult}
      {out : List Message} (allowed : C b op) (exec : op.exec b = .ok (b', res))
      (rest : Run C b' ops out b'') : Run C b (op :: ops) (res.dequeuedMessages ++ out) b''

def simulate (C : MessageBuffer → BufferOp → Bool) (b : MessageBuffer) :
    List BufferOp → Option (List Message × MessageBuffer)
  | [] => some ([], b)
  | op :: ops =>
    if C b op then
      match op.exec b with
      | .ok (b', res) =>
        (simulate C b' ops).map fun r => (res.dequeuedMessages ++ r.1, r.2)
      | .error _ => none
    else none

theorem run_of_simulate (C : MessageBuffer → BufferOp → Bool) (b : MessageBuffer)
    (ops : List BufferOp) {r : List Message × MessageBuffer} (h : simulate C b ops = some r) :
    Run (fun b op => C b op = true) b ops r.1 r.2 := by
  induction ops generalizing b r with
  | nil =>
    obtain rfl := Option.some.inj h
    exact .nil b
  | cons op ops ih =>
    rw [simulate] at h
    split_ifs at h with hC
    split at h
    · rename_i b' res hexec
      obtain ⟨r', hr', rfl⟩ := Option.map_eq_some_iff.mp h
      exact .cons hC hexec (ih b' hr')
    · cases h

theorem Run.mono {C C' : MessageBuffer → BufferOp → Prop} (h : ∀ b op, C b op → C' b op)
    {b b' : MessageBuffer} {ops : List BufferOp} {out : List Message} (hrun : Run C b ops out b') :
    Run C' b ops out b' := by
  induction hrun with
  | nil b => exact .nil b
  | cons hC hexec _ ih => exact .cons (h _ _ hC) hexec ih

end MessageBuffer

end NocSwap
