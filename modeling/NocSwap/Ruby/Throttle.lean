import NocSwap.Ruby.Correct.BufferRun

/-!
# Throttles

A `Throttle` moves messages from the queues of a switch to those of a link.
-/

namespace NocSwap

namespace Throttle

def messageSizeMultiplier : Nat := 1000

def prioritySwitchLimit : Nat := 128

structure Config where
  endpointBandwidth : Int
  linkBandwidthMultiplier : Int
  linkLatency : Nat
  messageSize : Message → Nat
  flags : MessageBuffer.RubyFlags

def Config.getLinkBandwidth (C : Config) : Int := C.endpointBandwidth * C.linkBandwidthMultiplier

def Config.networkMessageToSize (C : Config) (m : Message) : Int :=
  C.messageSize m * messageSizeMultiplier

theorem Config.networkMessageToSize_nonneg (C : Config) (m : Message) :
    0 ≤ C.networkMessageToSize m :=
  Int.mul_nonneg (Int.natCast_nonneg _) (Int.natCast_nonneg _)

/-! ### The loop of a virtual network -/

/-- The variables of the loop of `operateVnet`, with the messages moved so far, the latest first. -/
structure Work where
  input : MessageBuffer
  output : MessageBuffer
  unitsRemaining : Int
  bwRemaining : Int
  moved : List Message
  nonneg : 0 ≤ unitsRemaining

namespace Work

def waits (w : Work) (currentTime : Nat) : Bool :=
  w.input.isReady currentTime || decide (0 < w.unitsRemaining)

def goesOn (w : Work) (currentTime : Nat) : Bool :=
  decide (0 < w.bwRemaining) && w.waits currentTime && w.output.areNSlotsAvailable 1 currentTime

def move (C : Config) (currentTime rnd : Nat) (w : Work) : Except Fault Work := do
  let m ← orFail .emptyBuffer w.input.prioHeap.head?
  let (input, m') ← w.input.dequeue currentTime true
  let (output, _) ← w.output.enqueue C.flags m' currentTime C.linkLatency rnd
  return { w with
    input := input
    output := output
    unitsRemaining := w.unitsRemaining + C.networkMessageToSize m
    moved := m :: w.moved
    nonneg := Int.add_nonneg w.nonneg (C.networkMessageToSize_nonneg m) }

def pay (w : Work) : Work :=
  let diff := w.unitsRemaining - w.bwRemaining
  { w with unitsRemaining := max 0 diff, bwRemaining := max 0 (-diff), nonneg := le_max_left .. }

def pass (C : Config) (currentTime rnd : Nat) (w : Work) : Except Fault Work := do
  let w ← if w.unitsRemaining = 0 ∧ w.input.isReady currentTime = true then
      w.move C currentTime rnd
    else pure w
  return w.pay

theorem move_inv {C : Config} {currentTime rnd : Nat} {w w' : Work}
    (h : w.move C currentTime rnd = .ok w') : ∃ m, w.input.prioHeap = m :: w'.input.prioHeap ∧
      w'.unitsRemaining = w.unitsRemaining + C.networkMessageToSize m ∧
      w'.bwRemaining = w.bwRemaining ∧ w'.moved = m :: w.moved := by
  obtain ⟨m, hm, h⟩ := bind_eq_ok.mp h
  obtain ⟨⟨input, m'⟩, hdeq, h⟩ := bind_eq_ok.mp h
  obtain ⟨⟨output, t⟩, -, h⟩ := bind_eq_ok.mp h
  obtain rfl := Except.ok.inj h
  obtain ⟨m₀, rest, hheap, -, -, rfl⟩ := MessageBuffer.dequeue_ok hdeq
  rw [hheap] at hm
  obtain rfl := Except.ok.inj hm
  exact ⟨m₀, hheap, rfl, rfl, rfl⟩

theorem pass_decreases {C : Config} {currentTime rnd : Nat} {w w' : Work}
    (hgo : w.goesOn currentTime = true) (h : w.pass C currentTime rnd = .ok w') :
    w'.bwRemaining.toNat + w'.input.prioHeap.length <
      w.bwRemaining.toNat + w.input.prioHeap.length := by
  obtain ⟨hgo, -⟩ := Bool.and_eq_true_iff.mp hgo
  obtain ⟨hbw, hwaits⟩ := Bool.and_eq_true_iff.mp hgo
  have hbw := of_decide_eq_true hbw
  have hnonneg := w.nonneg
  unfold pass at h
  split_ifs at h with hready
  · obtain ⟨w₁, hmove, h⟩ := bind_eq_ok.mp h
    obtain rfl := Except.ok.inj h
    obtain ⟨m, hheap, -, hsame, -⟩ := move_inv hmove
    have hpos := w₁.nonneg
    simp only [pay, hheap, hsame, List.length_cons]
    omega
  · obtain ⟨w₁, hw₁, h⟩ := bind_eq_ok.mp h
    obtain rfl := Except.ok.inj hw₁
    obtain rfl := Except.ok.inj h
    have hunits : 0 < w.unitsRemaining := by
      rcases Bool.or_eq_true_iff.mp hwaits with hin | hunits
      · have hne : w.unitsRemaining ≠ 0 := fun h0 => hready ⟨h0, hin⟩
        omega
      · exact of_decide_eq_true hunits
    simp only [pay]
    omega

end Work

def operateLoop (C : Config) (currentTime : Nat) (rnd : Nat → Nat) (w : Work) : Except Fault Work :=
  if _hgo : w.goesOn currentTime = true then
    match _hpass : w.pass C currentTime (rnd w.moved.length) with
    | .ok w' => operateLoop C currentTime rnd w'
    | .error e => .error e
  else .ok w
termination_by w.bwRemaining.toNat + w.input.prioHeap.length
decreasing_by exact Work.pass_decreases _hgo _hpass

/-! ### Throttles -/

structure Vnet where
  input : Option MessageBuffer
  output : Option MessageBuffer
  unitsRemaining : Int
  deriving DecidableEq

structure Turn where
  bwRemaining : Int
  scheduleWakeup : Bool
  moved : List Message
  deriving DecidableEq

def operateVnet (C : Config) (currentTime : Nat) (rnd : Nat → Nat) (v : Vnet) (a : Turn) :
    Except Fault (Vnet × Turn) :=
  match v.input, v.output with
  | some input, some output =>
    if hunits : 0 ≤ v.unitsRemaining then do
      let w ← operateLoop C currentTime rnd
        ⟨input, output, v.unitsRemaining, a.bwRemaining, a.moved, hunits⟩
      let blocked := decide (0 < w.bwRemaining) && w.waits currentTime &&
        !w.output.areNSlotsAvailable 1 currentTime
      return (⟨some w.input, some w.output, w.unitsRemaining⟩,
        ⟨w.bwRemaining, a.scheduleWakeup || blocked, w.moved⟩)
    else .error .unitsRemaining
  | _, _ => return (v, a)

def operateVnets (C : Config) (currentTime : Nat) (rnd : Nat → Nat) :
    List Vnet → Turn → Except Fault (List Vnet × Turn)
  | [], a => return ([], a)
  | v :: vs, a => do
    let (v, a) ← operateVnet C currentTime rnd v a
    let (vs, a) ← operateVnets C currentTime rnd vs a
    return (v :: vs, a)

end Throttle

/-- A throttle, with the messages it has moved and the units it has spent,
`m_link_utilization_proxy`. -/
structure Throttle where
  vnets : List Throttle.Vnet
  wakeupsWoSwitch : Nat
  moved : List Message
  spent : Int
  deriving DecidableEq

namespace Throttle

/-- `Throttle::wakeup`, with whether it calls `scheduleEvent(Cycles(1))`. -/
def wakeup (C : Config) (currentTime : Nat) (rnd : Nat → Nat) (t : Throttle) :
    Except Fault (Throttle × Bool) := do
  require .linkBandwidth (0 < C.getLinkBandwidth)
  let wakeupsWoSwitch := t.wakeupsWoSwitch + 1
  let iterationDirection := decide (prioritySwitchLimit < wakeupsWoSwitch)
  let a : Turn := ⟨C.getLinkBandwidth, false, t.moved⟩
  let (vnets, a) ← if iterationDirection then operateVnets C currentTime rnd t.vnets a
    else do
      let (vnets, a) ← operateVnets C currentTime rnd t.vnets.reverse a
      pure (vnets.reverse, a)
  return (⟨vnets, if iterationDirection then 0 else wakeupsWoSwitch, a.moved,
      t.spent + (C.getLinkBandwidth - a.bwRemaining)⟩,
    !(decide (0 < a.bwRemaining) && !a.scheduleWakeup))

/-! ### Runs -/

inductive Run (C : Config) : Throttle → Prop where
  | start {vnets : List Vnet} (h : ∀ v ∈ vnets, v.unitsRemaining = 0) :
      Run C ⟨vnets, 0, [], 0⟩
  | refill {t : Throttle} {vnets : List Vnet} (h : Run C t)
      (hunits : vnets.map Vnet.unitsRemaining = t.vnets.map Vnet.unitsRemaining) :
      Run C { t with vnets := vnets }
  | wake {t t' : Throttle} {again : Bool} (currentTime : Nat) (rnd : Nat → Nat) (h : Run C t)
      (hw : wakeup C currentTime rnd t = .ok (t', again)) : Run C t'

end Throttle

end NocSwap
