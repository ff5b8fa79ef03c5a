import Mathlib.Data.Finset.Basic
import Mathlib.Data.List.Dedup

/-!
# Consumers

A `Consumer` asks for wakeups at ticks of its choice.
-/

namespace NocSwap.Ruby

/-! ### Clocks -/

/-- The tick of the next clock edge at the last reading, and the number of its cycle. -/
structure Clocked where
  tick : Nat
  cycle : Nat
  deriving DecidableEq

def divCeil (a b : Nat) : Nat := (a + b - 1) / b

/-- `Clocked::update` at tick `now`, for a clock of the given period. -/
def Clocked.update (period now : Nat) (c : Clocked) : Clocked :=
  if now ≤ c.tick then c
  else
    let c := ⟨c.tick + period, c.cycle + 1⟩
    if now ≤ c.tick then c
    else
      let elapsedCycles := divCeil (now - c.tick) period
      ⟨c.tick + elapsedCycles * period, c.cycle + elapsedCycles⟩

/-! ### Consumers -/

structure Consumer where
  curTick : Nat
  clock : Clocked
  scheduledWakeups : Finset Nat
  events : List Nat
  deriving DecidableEq

namespace Consumer

def init : Consumer := ⟨0, ⟨0, 0⟩, ∅, []⟩

variable (period : Nat)

def clockEdge (c : Consumer) (cycles : Nat) : Nat :=
  (c.clock.update period c.curTick).tick + period * cycles

def readClock (c : Consumer) : Consumer := { c with clock := c.clock.update period c.curTick }

def alreadyScheduled (c : Consumer) (time : Nat) : Bool := decide (time ∈ c.scheduledWakeups)

def insertScheduledWakeupTime (c : Consumer) (time : Nat) : Consumer :=
  { c with scheduledWakeups := insert time c.scheduledWakeups }

def scheduleEventAbsolute (c : Consumer) (evtTime : Nat) : Consumer :=
  let c := if c.alreadyScheduled evtTime then c
    else { c with events := evtTime :: c.events }.insertScheduledWakeupTime evtTime
  let t := c.clockEdge period 0
  { c.readClock period with scheduledWakeups := c.scheduledWakeups.filter fun x => t ≤ x }

def scheduleEvent (c : Consumer) (timeDelta : Nat) : Consumer :=
  (c.readClock period).scheduleEventAbsolute period (c.clockEdge period timeDelta)

/-! ### Runs -/

inductive Action where
  | call (evtTime : Nat)
  | fire
  | read
  | advance (tick : Nat)
  deriving DecidableEq

/-- An event queue takes no event for a past tick, services events in their tick, and passes none
by. -/
def Enabled (c : Consumer) : Action → Prop
  | .call t => c.curTick ≤ t
  | .fire => c.curTick ∈ c.events
  | .read => True
  | .advance t => c.curTick < t ∧ ∀ e ∈ c.events, t ≤ e

instance (c : Consumer) : (a : Action) → Decidable (c.Enabled a)
  | .call _ => inferInstanceAs (Decidable (_ ≤ _))
  | .fire => inferInstanceAs (Decidable (_ ∈ _))
  | .read => inferInstanceAs (Decidable True)
  | .advance _ => inferInstanceAs (Decidable (_ ∧ _))

def act (c : Consumer) : Action → Consumer
  | .call t => c.scheduleEventAbsolute period t
  | .fire => { c with events := c.events.erase c.curTick }
  | .read => c.readClock period
  | .advance t => { c with curTick := t }

abbrev Past := List (Consumer × Action)

inductive Run : Past → Consumer → Prop
  | init : Run [] init
  | step {past : Past} {c : Consumer} (a : Action) : Run past c → c.Enabled a →
      Run ((c, a) :: past) (c.act period a)

def perform : List Action → Past → Consumer → Option (Past × Consumer)
  | [], past, c => some (past, c)
  | a :: rest, past, c =>
    if c.Enabled a then perform rest ((c, a) :: past) (c.act period a) else none

theorem run_of_perform {actions : List Action} {past past' : Past} {c c' : Consumer}
    (h : Run period past c) (hp : perform period actions past c = some (past', c')) :
    Run period past' c' := by
  induction actions generalizing past c with
  | nil =>
    obtain ⟨rfl, rfl⟩ := Prod.mk.inj (Option.some.inj hp)
    exact h
  | cons a rest ih =>
    unfold perform at hp
    split_ifs at hp with hen
    exact ih (.step a h hen) hp

end Consumer

end NocSwap.Ruby
