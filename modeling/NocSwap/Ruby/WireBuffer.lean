import NocSwap.Ruby.MessageBuffer

/-!
# Wire buffers

`WireBuffer` of `mem/ruby/structures/WireBuffer.cc`, the heap functions of the standard library
being known by what they promise.
-/

namespace NocSwap

/-- The order in which `pop_heap` and `push_heap` with `greater` keep a vector. -/
def IsHeap (q : List Message) : Prop :=
  ∀ i x y, 0 < i → q[(i - 1) / 2]? = some x → q[i]? = some y → x.le y = true

/-- `pop_heap`, which moves `x` to the end and leaves `rest` before it. -/
inductive PopHeap : List Message → Message → List Message → Prop
  | heap {x : Message} {q rest : List Message} (hq : IsHeap (x :: q)) (hperm : rest.Perm q)
      (hrest : IsHeap rest) : PopHeap (x :: q) x rest
  | unspecified {x : Message} {q rest : List Message} (hq : ¬ IsHeap q) : PopHeap q x rest

/-- `push_heap`, with `x` at the end of the vector. -/
inductive PushHeap : List Message → Message → List Message → Prop
  | heap {x : Message} {q q' : List Message} (hq : IsHeap q) (hperm : q'.Perm (q ++ [x]))
      (hq' : IsHeap q') : PushHeap q x q'
  | unspecified {x : Message} {q q' : List Message} (hq : ¬ IsHeap q) : PushHeap q x q'

namespace WireBuffer

def isReady (q : List Message) (currentTime : Nat) : Bool :=
  match q with
  | [] => false
  | m :: _ => decide (m.lastEnqueueTime ≤ currentTime)

/-- The vectors `q` after calls that pass the assertions, `C` being a condition on what is enqueued.
`fresh` keeps the buffered messages that were never recycled, in the order of their `enqueue`. -/
inductive Reach (C : List Message → Message → Prop) : (fresh q : List Message) → Prop
  | init : Reach C [] []
  | enqueue {fresh q : List Message} (m : Message) (currentTime delta : Nat) (h : Reach C fresh q)
      (hlate : currentTime + delta > currentTime)
      (hC : C q { m with lastEnqueueTime := currentTime + delta }) :
      Reach C (fresh ++ [{ m with lastEnqueueTime := currentTime + delta }])
        (q ++ [{ m with lastEnqueueTime := currentTime + delta }])
  | dequeue {fresh q rest : List Message} {x : Message} {currentTime : Nat} (h : Reach C fresh q)
      (hready : isReady q currentTime = true) (hpop : PopHeap q x rest) :
      Reach C (fresh.erase x) rest
  | recycle {fresh q rest q' : List Message} {m x : Message} {currentTime recycleLatency : Nat}
      (h : Reach C fresh q) (hready : isReady q currentTime = true) (hfront : q.head? = some m)
      (hpop : PopHeap q x rest)
      (hpush : PushHeap rest { m with lastEnqueueTime := currentTime + recycleLatency } q') :
      Reach C (fresh.erase m) q'

end WireBuffer

end NocSwap
