import Mathlib.Data.List.Sort
import NocSwap.Sim.EventQueue

/-!
# The priority queue an event queue stands for

The scheduled events as one list, sorted by time and priority, the one inserted last first among
equals.
-/

namespace NocSwap.Sim

namespace Event

theorem le_iff_not_lt {x y : Event} : x.le y ↔ ¬ y.lt x := by
  unfold le lt
  omega

theorem le_trans {x y z : Event} (h : x.le y) (h' : y.le z) : x.le z := by
  unfold le at *
  omega

theorem le_total (x y : Event) : x.le y ∨ y.le x := by
  unfold le
  omega

theorem le_of_lt {x y : Event} (h : x.lt y) : x.le y := by
  unfold le
  unfold lt at h
  omega

theorem lt_of_lt_of_le {x y z : Event} (h : x.lt y) (h' : y.le z) : x.lt z := by
  unfold le at h'
  unfold lt at *
  omega

theorem eq_iff {x y : Event} : x.eq y ↔ x.le y ∧ y.le x := by
  unfold eq le
  omega

end Event

def Before (events : Nat → Event) (e e' : Nat) : Prop := (events e).le (events e')

instance (events : Nat → Event) : DecidableRel (Before events) :=
  fun e e' => inferInstanceAs (Decidable ((events e).le (events e')))

instance (events : Nat → Event) : Std.Total (Before events) :=
  ⟨fun _ _ => Event.le_total _ _⟩

instance (events : Nat → Event) : IsTrans Nat (Before events) :=
  ⟨fun _ _ _ => Event.le_trans⟩

/-- The scheduled events, the first one first. -/
structure PriorityQueue where
  events : Nat → Event
  queue : List Nat
  curTick : Nat

namespace PriorityQueue

def modify (a : PriorityQueue) (event : Nat) (f : Event → Event) : PriorityQueue :=
  { a with events := Function.update a.events event (f (a.events event)) }

def insert (a : PriorityQueue) (event : Nat) : PriorityQueue :=
  { a with queue := a.queue.orderedInsert (Before a.events) event }

def remove (a : PriorityQueue) (event : Nat) : PriorityQueue :=
  { a with queue := a.queue.erase event }

def schedule (event when : Nat) (a : PriorityQueue) : Except Fault PriorityQueue := do
  require .past (a.curTick ≤ when)
  require .scheduled ((a.events event).scheduled = false)
  require .uninitialized ((a.events event).initialized = true)
  return (a.modify event fun e =>
    { e with when := when, onQueue := true, scheduled := true }).insert event

def deschedule (event : Nat) (a : PriorityQueue) : Except Fault PriorityQueue := do
  require .scheduled ((a.events event).scheduled = true)
  require .uninitialized ((a.events event).initialized = true)
  return (a.remove event).modify event fun e =>
    Event.release { e with squashed := false, scheduled := false }

def reschedule (event when : Nat) (always : Bool) (a : PriorityQueue) :
    Except Fault PriorityQueue := do
  require .past (a.curTick ≤ when)
  require .scheduled (always = true ∨ (a.events event).scheduled = true)
  require .uninitialized ((a.events event).initialized = true)
  return ((a.remove event).modify event fun e =>
    { e with when := when, onQueue := true, squashed := false, scheduled := true }).insert event

def call (a : PriorityQueue) : EventQueue.Call → Except Fault PriorityQueue
  | .schedule event when => a.schedule event when
  | .deschedule event => a.deschedule event
  | .reschedule event when always => a.reschedule event when always
  | .squash event => return a.modify event fun e => { e with squashed := true }

def pop (a : PriorityQueue) (event : Nat) : PriorityQueue :=
  { a.modify event fun e => { e with scheduled := false } with queue := a.queue.tail }

def serve (process : List EventQueue.Call) (event : Nat) (a : PriorityQueue) :
    Except Fault PriorityQueue :=
  if (a.events event).squashed = true then
    return a.modify event fun e => Event.release { e with squashed := false }
  else do
    let a ← process.foldlM call { a with curTick := (a.events event).when }
    if (a.events event).isExitEvent = true then return a
    else return a.modify event Event.release

def serviceOne (process : List EventQueue.Call) (a : PriorityQueue) :
    Except Fault PriorityQueue := do
  let event ← orFail .nullPointer a.queue.head?
  serve process event (a.pop event)

def exec (a : PriorityQueue) : EventQueue.Op → Except Fault PriorityQueue
  | .call c => a.call c
  | .serviceOne process => a.serviceOne process

def run (ops : List EventQueue.Op) (a : PriorityQueue) : Except Fault PriorityQueue :=
  ops.foldlM exec a

end PriorityQueue

end NocSwap.Sim
