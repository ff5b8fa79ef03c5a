import NocSwap.Lib.Outcome

/-!
# Circular buffers

`CircleBuf` of `base/circlebuf.hh`. Sizes are natural numbers: no sum of cursors reaches three times
the capacity.
-/

namespace NocSwap.Base

structure CircleBuf (α : Type) where
  buf : List α
  _start : Nat := 0
  _stop : Nat := 0
  deriving DecidableEq, Repr

namespace CircleBuf

inductive Fault
  | readPastEnd
  | assertion
  deriving DecidableEq, Repr

variable {α : Type} (b : CircleBuf α)

def size : Nat := b._stop - b._start

def flush : CircleBuf α := { b with _start := 0, _stop := 0 }

def normalize : Except Fault (CircleBuf α) := do
  let b := if b.buf.length ≤ b._start then
      { b with _start := b._start - b.buf.length, _stop := b._stop - b.buf.length }
    else b
  require .assertion (b._start < b.buf.length)
  require .assertion (b._stop < 2 * b.buf.length)
  require .assertion (b._start ≤ b._stop)
  return b

def peek (offset len : Nat) : Except Fault (List α) := do
  require .readPastEnd (offset + len ≤ b.size)
  let realStart := (offset + b._start) % b.buf.length
  if realStart + len ≤ b.buf.length then return (b.buf.drop realStart).take len
  else
    let headSize := b.buf.length - realStart
    let tailSize := len - headSize
    return b.buf.drop realStart ++ b.buf.take tailSize

def read (len : Nat) : Except Fault (List α × CircleBuf α) := do
  let out ← b.peek 0 len
  let b ← normalize { b with _start := b._start + len }
  return (out, b)

/-- `std::copy` of `xs` to position `k` of a vector. -/
def copyTo (k : Nat) (xs buf : List α) : List α := buf.take k ++ xs ++ buf.drop (k + xs.length)

def write (input : List α) : Except Fault (CircleBuf α) :=
  -- of a write above the capacity only the last part is kept
  let input := if b.buf.length < input.length then input.drop (input.length - b.buf.length) else input
  let next := b._stop % b.buf.length
  let headLen := min (b.buf.length - next) input.length
  let buf := copyTo 0 (input.drop headLen) (copyTo next (input.take headLen) b.buf)
  let stop := b._stop + input.length
  let start := if b.buf.length < stop - b._start then stop - b.buf.length else b._start
  normalize ⟨buf, start, stop⟩

inductive Op (α : Type)
  | write (input : List α)
  | read (len : Nat)
  | peek (offset len : Nat)
  | flush

/-- What a call copies out, and the buffer after it. -/
def exec : Op α → Except Fault (List α × CircleBuf α)
  | .write input => do return ([], ← b.write input)
  | .read len => b.read len
  | .peek offset len => do return (← b.peek offset len, b)
  | .flush => return ([], b.flush)

def run (b : CircleBuf α) : List (Op α) → Except Fault (List (List α) × CircleBuf α)
  | [] => return ([], b)
  | op :: ops => do
    let (out, b) ← b.exec op
    let (outs, b) ← run b ops
    return (out :: outs, b)

end CircleBuf

end NocSwap.Base
