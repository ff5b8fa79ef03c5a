import NocSwap.Sim.EventQueue

/-!
# Memory write-back

`RubySystem::memWriteback`: the queue is emptied, the flush simulated on it, and the events are put
back.
-/

namespace NocSwap.Sim.EventQueue

def descheduleAll (fuel : Nat) : Nat → EventQueue → Except Fault (List (Nat × Nat) × EventQueue)
  | 0, _ => .error .outOfFuel
  | n + 1, q =>
    match q.head with
    | none => return ([], q)
    | some head => do
      -- an event that auto-deletes is not recorded
      let original := if (q.events head).managed then [] else [(head, (q.events head).when)]
      let q ← q.deschedule fuel head
      let (originals, q) ← descheduleAll fuel n q
      return (original ++ originals, q)

/-- `RubySystem::memWriteback`; `flush` are the operations of `simulate()` on the queue. -/
def memWriteback (fuel : Nat) (flush : List Op) (q : EventQueue) : Except Fault EventQueue := do
  let curtickOriginal := q.curTick
  let (originalEvents, q) ← q.descheduleAll fuel fuel
  let q ← q.run fuel flush
  let (_, q) ← q.descheduleAll fuel fuel
  originalEvents.reverse.foldlM (fun q e => q.schedule fuel e.1 e.2)
    { q with curTick := curtickOriginal }

/-- The calls of `process()`, with their ticks, when the queue is serviced until it is empty. -/
def serviced (fuel : Nat) : Nat → EventQueue → Except Fault (List (Nat × Nat))
  | 0, _ => .error .outOfFuel
  | n + 1, q =>
    match q.head with
    | none => return []
    | some head => do
      let rest ← serviced fuel n (← q.serviceOne fuel [])
      return if (q.events head).squashed then rest else (head, (q.events head).when) :: rest

end NocSwap.Sim.EventQueue
