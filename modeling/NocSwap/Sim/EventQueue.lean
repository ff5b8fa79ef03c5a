import NocSwap.Lib.Outcome

/-!
# The event queue

`EventQueue` of `sim/eventq.hh`: events in bins of equal time and priority, linked by `nextBin` and
`nextInBin`.
-/

namespace NocSwap.Sim

inductive Fault
  /-- `panic("event not found!")`. -/
  | notFound
  /-- A null pointer is followed. -/
  | nullPointer
  /-- `assert(when >= getCurTick())`. -/
  | past
  /-- An assertion on `scheduled()`. -/
  | scheduled
  /-- `assert(event->initialized())`. -/
  | uninitialized
  /-- `assert(event->queue == this)`. -/
  | otherQueue
  /-- A loop has not ended within its fuel. -/
  | outOfFuel
  deriving DecidableEq, Repr

/-- The fields of an `Event`, without its two pointers. -/
structure Event where
  when : Nat := 0
  priority : Int := 0
  scheduled : Bool := false
  squashed : Bool := false
  managed : Bool := false
  isExitEvent : Bool := false
  initialized : Bool := true
  /-- Whether the field `queue` names this queue. -/
  onQueue : Bool := false
  deriving DecidableEq, Repr

namespace Event

def lt (l r : Event) : Prop := l.when < r.when ∨ l.when = r.when ∧ l.priority < r.priority

def le (l r : Event) : Prop := l.when < r.when ∨ l.when = r.when ∧ l.priority ≤ r.priority

def eq (l r : Event) : Prop := l.when = r.when ∧ l.priority = r.priority

instance (l r : Event) : Decidable (l.lt r) := inferInstanceAs (Decidable (_ ∨ _))

instance (l r : Event) : Decidable (l.le r) := inferInstanceAs (Decidable (_ ∨ _))

instance (l r : Event) : Decidable (l.eq r) := inferInstanceAs (Decidable (_ ∧ _))

/-- `Event::release`: a managed event that is not scheduled is deleted. -/
def release (e : Event) : Event :=
  if e.managed = true ∧ e.scheduled = false then
    { e with squashed := false, managed := false, isExitEvent := false, initialized := false }
  else e

end Event

/-- An event queue and the memory of its events. -/
structure EventQueue where
  events : Nat → Event
  nextBin : Nat → Option Nat
  nextInBin : Nat → Option Nat
  head : Option Nat
  curTick : Nat

namespace EventQueue

def modify (q : EventQueue) (event : Nat) (f : Event → Event) : EventQueue :=
  { q with events := Function.update q.events event (f (q.events event)) }

def setNextBin (q : EventQueue) (event : Nat) (p : Option Nat) : EventQueue :=
  { q with nextBin := Function.update q.nextBin event p }

def setNextInBin (q : EventQueue) (event : Nat) (p : Option Nat) : EventQueue :=
  { q with nextInBin := Function.update q.nextInBin event p }

/-- `Event::insertBefore`, without the pointer to `event` that it returns. -/
def insertBefore (q : EventQueue) (event : Nat) (curr : Option Nat) : EventQueue :=
  match curr with
  | none => (q.setNextBin event none).setNextInBin event none
  | some c =>
    if (q.events event).lt (q.events c) then
      (q.setNextBin event (some c)).setNextInBin event none
    else
      (q.setNextBin event (q.nextBin c)).setNextInBin event (some c)

def seek (q : EventQueue) (event : Nat) : Nat → Nat → Option Nat → Except Fault (Nat × Option Nat)
  | 0, _, _ => .error .outOfFuel
  | fuel + 1, prev, curr =>
    match curr with
    | none => return (prev, none)
    | some c =>
      if (q.events c).lt (q.events event) then q.seek event fuel c (q.nextBin c)
      else return (prev, some c)

def insert (fuel event : Nat) (q : EventQueue) : Except Fault EventQueue :=
  match q.head with
  | none => return { q.insertBefore event none with head := some event }
  | some h =>
    if (q.events event).le (q.events h) then
      return { q.insertBefore event (some h) with head := some event }
    else do
      let (prev, curr) ← q.seek event fuel h (q.nextBin h)
      return (q.insertBefore event curr).setNextBin prev (some event)

def seekInBin (q : EventQueue) (event : Nat) : Nat → Nat → Option Nat → Except Fault Nat
  | 0, _, _ => .error .outOfFuel
  | fuel + 1, curr, next =>
    match next with
    | none => .error .notFound
    | some n => if event = n then return curr else q.seekInBin event fuel n (q.nextInBin n)

/-- `Event::removeItem`: the queue and the new top. -/
def removeItem (fuel event top : Nat) (q : EventQueue) : Except Fault (EventQueue × Option Nat) :=
  if event = top then
    match q.nextInBin top with
    | none => return (q, q.nextBin top)
    | some next => return (q.setNextBin next (q.nextBin top), some next)
  else do
    let curr ← q.seekInBin event fuel top (q.nextInBin top)
    return (q.setNextInBin curr (q.nextInBin event), some top)

def remove (fuel event : Nat) (q : EventQueue) : Except Fault EventQueue :=
  match q.head with
  | none => .error .notFound
  | some h => do
    require .otherQueue ((q.events event).onQueue = true)
    if (q.events h).eq (q.events event) then
      let (q, top) ← q.removeItem fuel event h
      return { q with head := top }
    else
      let (prev, curr) ← q.seek event fuel h (q.nextBin h)
      match curr with
      | none => .error .notFound
      | some c =>
        require .notFound ((q.events c).eq (q.events event))
        let (q, top) ← q.removeItem fuel event c
        return q.setNextBin prev top

/-- `EventQueue::schedule`, not in parallel mode. -/
def schedule (fuel event when : Nat) (q : EventQueue) : Except Fault EventQueue := do
  require .past (q.curTick ≤ when)
  require .scheduled ((q.events event).scheduled = false)
  require .uninitialized ((q.events event).initialized = true)
  let q ← (q.modify event fun e => { e with when := when, onQueue := true }).insert fuel event
  return q.modify event fun e => { e with scheduled := true }

/-- `EventQueue::deschedule`, not in parallel mode. -/
def deschedule (fuel event : Nat) (q : EventQueue) : Except Fault EventQueue := do
  require .scheduled ((q.events event).scheduled = true)
  require .uninitialized ((q.events event).initialized = true)
  let q ← q.remove fuel event
  return (q.modify event fun e => { e with squashed := false, scheduled := false }).modify event
    Event.release

/-- `EventQueue::reschedule`, not in parallel mode. -/
def reschedule (fuel event when : Nat) (always : Bool) (q : EventQueue) :
    Except Fault EventQueue := do
  require .past (q.curTick ≤ when)
  require .scheduled (always = true ∨ (q.events event).scheduled = true)
  require .uninitialized ((q.events event).initialized = true)
  let q ← (if (q.events event).scheduled = true then q.remove fuel event else pure q)
  let q ← (q.modify event fun e => { e with when := when, onQueue := true }).insert fuel event
  return q.modify event fun e => { e with squashed := false, scheduled := true }

inductive Call
  | schedule (event when : Nat)
  | deschedule (event : Nat)
  | reschedule (event when : Nat) (always : Bool)
  /-- `Event::squash`. -/
  | squash (event : Nat)
  deriving DecidableEq, Repr

def call (fuel : Nat) (q : EventQueue) : Call → Except Fault EventQueue
  | .schedule event when => q.schedule fuel event when
  | .deschedule event => q.deschedule fuel event
  | .reschedule event when always => q.reschedule fuel event when always
  | .squash event => return q.modify event fun e => { e with squashed := true }

def popHead (event : Nat) (q : EventQueue) : EventQueue :=
  match q.nextInBin event with
  | some next => { q.setNextBin next (q.nextBin event) with head := some next }
  | none => { q with head := q.nextBin event }

/-- `EventQueue::serviceOne`; `process` are the calls that the process method of the event makes. -/
def serviceOne (fuel : Nat) (process : List Call) (q : EventQueue) : Except Fault EventQueue := do
  let event ← orFail .nullPointer q.head
  let q := (q.modify event fun e => { e with scheduled := false }).popHead event
  if (q.events event).squashed = true then
    return (q.modify event fun e => { e with squashed := false }).modify event Event.release
  else
    let q ← process.foldlM (call fuel) { q with curTick := (q.events event).when }
    if (q.events event).isExitEvent = true then return q
    else return q.modify event Event.release

inductive Op
  | call (c : Call)
  | serviceOne (process : List Call)
  deriving DecidableEq, Repr

def exec (fuel : Nat) (q : EventQueue) : Op → Except Fault EventQueue
  | .call c => q.call fuel c
  | .serviceOne process => q.serviceOne fuel process

structure Verify where
  time : Nat := 0
  priority : Int := 0
  map : List Nat := []
  deriving DecidableEq, Repr

def verifyInBin (q : EventQueue) : Nat → Option Nat → Verify → Except Fault (Option Verify)
  | 0, _, _ => .error .outOfFuel
  | _ + 1, none, v => return some v
  | fuel + 1, some e, v =>
    if (q.events e).when < v.time then return none
    else if (q.events e).when = v.time ∧ (q.events e).priority < v.priority then return none
    else if e ∈ v.map then return none
    else q.verifyInBin fuel (q.nextInBin e)
      ⟨(q.events e).when, (q.events e).priority, e :: v.map⟩

def verifyBins (passes : Nat) (q : EventQueue) : Nat → Option Nat → Verify → Except Fault Bool
  | 0, _, _ => .error .outOfFuel
  | _ + 1, none, _ => return true
  | fuel + 1, some t, v => do
    match ← q.verifyInBin passes (some t) v with
    | none => return false
    | some v => q.verifyBins passes fuel (q.nextBin t) v

def debugVerify (fuel : Nat) (q : EventQueue) : Except Fault Bool :=
  q.verifyBins fuel fuel q.head {}

def run (fuel : Nat) (ops : List Op) (q : EventQueue) : Except Fault EventQueue :=
  ops.foldlM (exec fuel) q

end EventQueue

end NocSwap.Sim
