import NocSwap.Ruby.Correct.BufferRun

/-!
# Switches of the simple network

A `PerfectSwitch` moves messages from the queues of its input ports to those of its output links. An
output port has the queues it was added with, a port to a node as many as the highest virtual network
in which the node receives asks for: `m_out[out][v]` is out of bounds for the others (`outQueue`).
-/

namespace NocSwap

open Function

namespace MessageBuffer

/-- What `getSize` remembers in a buffer: `m_time_last_time_size_checked` and
`m_size_last_time_size_checked`. -/
structure SizeCheck where
  timeLastTimeSizeChecked : Nat
  sizeLastTimeSizeChecked : Nat
  deriving DecidableEq

/-- `MessageBuffer::getSize`, with what it remembers. -/
def getSize (b : MessageBuffer) (c : SizeCheck) (curTime : Nat) : Nat × SizeCheck :=
  let c := if c.timeLastTimeSizeChecked ≠ curTime then ⟨curTime, b.prioHeap.length⟩ else c
  (c.sizeLastTimeSizeChecked, c)

end MessageBuffer

namespace PerfectSwitch

def prioritySwitchLimit : Nat := 128

structure Config where
  virtualNetworks : Nat
  inPorts : List (List Bool)
  /-- The number of queues of each output port. -/
  outQueues : List Nat
  routingTable : List NetDest
  adaptiveRouting : Bool
  isVNetOrdered : Nat → Bool
  flags : MessageBuffer.RubyFlags

namespace Config

def numOut (P : Config) : Nat := P.routingTable.length

def entry (P : Config) (link : Nat) : NetDest := P.routingTable.getD link ⟨[], List.Pairwise.nil⟩

def hasBuffer (P : Config) (port vnet : Nat) : Bool := (P.inPorts.getD port []).getD vnet false

def hasQueue (P : Config) (out vnet : Nat) : Bool := decide (vnet < P.outQueues.getD out 0)

end Config

structure LinkOrder where
  link : Nat
  value : Nat
  deriving DecidableEq

end PerfectSwitch

/-- `m_in` and `m_out`, by port and virtual network, and whether a wakeup has been scheduled. -/
structure PerfectSwitch where
  inBuf : Nat × Nat → MessageBuffer
  outBuf : Nat × Nat → MessageBuffer
  sizeCheck : Nat × Nat → MessageBuffer.SizeCheck
  linkOrder : List PerfectSwitch.LinkOrder
  roundRobinStart : Nat
  wakeupsWoSwitch : Nat
  pendingMessageCount : Nat → Int
  scheduled : Bool
  draws : Nat

namespace PerfectSwitch

variable (P : Config) (currentTime : Nat) (random : Nat → Nat)

/-! ### The order of the links -/

def plainOrder : List LinkOrder := (List.range P.numOut).map fun out => ⟨out, 0⟩

def outQueueLength (s : PerfectSwitch) (out : Nat) : Nat :=
  ((List.range P.virtualNetworks).map fun v =>
    ((s.outBuf (out, v)).getSize (s.sizeCheck (out, v)) currentTime).1).sum

/-- The links, each with its value and a number that decides between equal values, whose order
`sort` leaves open. -/
def linkValues (s : PerfectSwitch) : List (LinkOrder × Nat) :=
  (List.range P.numOut).map fun out =>
    (⟨out, s.outQueueLength P currentTime out <<< 8 ||| random (s.draws + out) % 256⟩,
      random (s.draws + P.numOut + out))

def linkBefore (a b : LinkOrder × Nat) : Prop :=
  a.1.value < b.1.value ∨ (a.1.value = b.1.value ∧ a.2 ≤ b.2)

instance : DecidableRel linkBefore := fun a b =>
  inferInstanceAs (Decidable (a.1.value < b.1.value ∨ (a.1.value = b.1.value ∧ a.2 ≤ b.2)))

def sortLinks (s : PerfectSwitch) : PerfectSwitch :=
  { s with
    linkOrder := ((s.linkValues P currentTime random).insertionSort linkBefore).map Prod.fst
    sizeCheck := fun q =>
      if q.1 < P.numOut ∧ q.2 < P.virtualNetworks then
        ((s.outBuf q).getSize (s.sizeCheck q) currentTime).2
      else s.sizeCheck q
    draws := s.draws + 2 * P.numOut }

def orderLinks (vnet : Nat) (s : PerfectSwitch) : Except Fault PerfectSwitch :=
  if P.adaptiveRouting then
    if P.isVNetOrdered vnet then return { s with linkOrder := plainOrder P }
    else do
      require .outQueue (∀ out < P.numOut, ∀ v < P.virtualNetworks, P.hasQueue out v = true)
      return s.sortLinks P currentTime random
  else return s

/-! ### One message -/

/-- The walk over the links: `output_links` with `output_link_destinations`, and what is left of
`msg_dsts`. -/
def chooseLinks : List Nat → NetDest → List (Nat × NetDest) × NetDest
  | [], msgDsts => ([], msgDsts)
  | link :: links, msgDsts =>
    let dst := P.entry link
    if msgDsts.intersectionIsNotEmpty dst then
      let (outputs, left) := chooseLinks links (msgDsts.removeNetDest dst)
      ((link, msgDsts.AND dst) :: outputs, left)
    else chooseLinks links msgDsts

/-- The message itself for the first link, and clones for the others. -/
def copies (msg unmodified : Message) : List (Nat × NetDest) → List (Nat × Message)
  | [] => []
  | o :: outputs => (o.1, { msg with destination := o.2 }) ::
      outputs.map fun o => (o.1, { unmodified with destination := o.2 })

def enqueueCopy (vnet : Nat) (s : PerfectSwitch) (c : Nat × Message) :
    Except Fault PerfectSwitch := do
  let (b, _) ← (s.outBuf (c.1, vnet)).enqueue P.flags c.2 currentTime 1 (random s.draws)
  return { s with outBuf := update s.outBuf (c.1, vnet) b, draws := s.draws + 1 }

def deliver (incoming vnet : Nat) (m : Message) (outputs : List (Nat × NetDest))
    (s : PerfectSwitch) : Except Fault PerfectSwitch := do
  let (b, m') ← (s.inBuf (incoming, vnet)).dequeue currentTime true
  let s := { s with
    inBuf := update s.inBuf (incoming, vnet) b
    pendingMessageCount := update s.pendingMessageCount vnet
      (s.pendingMessageCount vnet - 1) }
  (copies m' m outputs).foldlM (enqueueCopy P currentTime random vnet) s

def forward (incoming vnet : Nat) (s : PerfectSwitch) : Except Fault (PerfectSwitch × Bool) := do
  let m ← orFail .emptyBuffer (s.inBuf (incoming, vnet)).prioHeap.head?
  require .linkOrder (s.linkOrder.length = P.routingTable.length)
  let s ← s.orderLinks P currentTime random vnet
  let (outputs, left) := chooseLinks P (s.linkOrder.map LinkOrder.link) m.destination
  require .destinationsLeft (left.count = 0)
  require .outQueue (∀ o ∈ outputs, P.hasQueue o.1 vnet = true)
  if outputs.all fun o => (s.outBuf (o.1, vnet)).areNSlotsAvailable 1 currentTime then
    let s ← s.deliver P currentTime random incoming vnet m outputs
    return (s, true)
  else return ({ s with scheduled := true }, false)

def kept (s : PerfectSwitch) :
    (Nat × Nat → MessageBuffer) × List LinkOrder × Nat × (Nat → Int) × Bool :=
  (s.inBuf, s.linkOrder, s.roundRobinStart, s.pendingMessageCount, s.scheduled)

section Termination

variable {P currentTime random} {incoming vnet : Nat} {s s' : PerfectSwitch}

theorem inBuf_orderLinks (h : s.orderLinks P currentTime random vnet = .ok s') :
    s'.inBuf = s.inBuf := by
  unfold orderLinks at h
  split_ifs at h
  · obtain rfl := Except.ok.inj h
    rfl
  · obtain ⟨-, -, h⟩ := bind_eq_ok.mp h
    obtain rfl := Except.ok.inj h
    rfl
  · obtain rfl := Except.ok.inj h
    rfl

theorem enqueueCopies_kept (l : List (Nat × Message)) :
    Yields kept s.kept (l.foldlM (enqueueCopy P currentTime random vnet) s) := by
  refine Yields.foldlM (fun s₁ c _ hs => ?_) s rfl
  exact .of_bind fun _ => .pure hs

theorem deliver_inBuf {m : Message} {outputs : List (Nat × NetDest)}
    (h : s.deliver P currentTime random incoming vnet m outputs = .ok s') :
    ∃ b m', (s.inBuf (incoming, vnet)).dequeue currentTime true = .ok (b, m') ∧
      s'.inBuf = update s.inBuf (incoming, vnet) b := by
  obtain ⟨⟨b, m'⟩, hdeq, h⟩ := bind_eq_ok.mp h
  have hkept := (enqueueCopies_kept _).of_ok s' h
  exact ⟨b, m', hdeq, (Prod.mk.inj hkept).1⟩

theorem forward_decreases (h : s.forward P currentTime random incoming vnet = .ok (s', true)) :
    (s'.inBuf (incoming, vnet)).prioHeap.length < (s.inBuf (incoming, vnet)).prioHeap.length := by
  obtain ⟨m, -, h⟩ := bind_eq_ok.mp h
  obtain ⟨_, -, h⟩ := bind_eq_ok.mp h
  obtain ⟨s₀, horder, h⟩ := bind_eq_ok.mp h
  obtain ⟨_, -, h⟩ := bind_eq_ok.mp h
  obtain ⟨_, -, h⟩ := bind_eq_ok.mp h
  split_ifs at h
  · obtain ⟨s₁, hdeliver, h⟩ := bind_eq_ok.mp h
    obtain ⟨rfl, -⟩ := Prod.mk.inj (Except.ok.inj h)
    obtain ⟨b, m', hdeq, hin⟩ := deliver_inBuf hdeliver
    obtain ⟨m₀, rest, hheap, -, -, rfl⟩ := MessageBuffer.dequeue_ok hdeq
    rw [inBuf_orderLinks horder] at hheap
    rw [hin, update_self, hheap, List.length_cons]
    exact Nat.lt_succ_self _
  · obtain ⟨-, hno⟩ := Prod.mk.inj (Except.ok.inj h)
    exact absurd hno Bool.false_ne_true

end Termination

/-! ### Queues, ports and virtual networks -/

def operateMessageBuffer (incoming vnet : Nat) (s : PerfectSwitch) : Except Fault PerfectSwitch :=
  if (s.inBuf (incoming, vnet)).isReady currentTime then
    match _hforward : s.forward P currentTime random incoming vnet with
    | .ok (s', true) => operateMessageBuffer incoming vnet s'
    | .ok (s', false) => .ok s'
    | .error e => .error e
  else .ok s
termination_by (s.inBuf (incoming, vnet)).prioHeap.length
decreasing_by exact forward_decreases _hforward

def nextPort (port : Nat) : Nat := if P.inPorts.length ≤ port + 1 then 0 else port + 1

def portsAfter : Nat → Nat → List Nat
  | 0, _ => []
  | counter + 1, incoming => nextPort P incoming :: portsAfter counter (nextPort P incoming)

def operatePort (vnet : Nat) (s : PerfectSwitch) (incoming : Nat) : Except Fault PerfectSwitch :=
  if P.hasBuffer incoming vnet then s.operateMessageBuffer P currentTime random incoming vnet
  else return s

def operateVnet (s : PerfectSwitch) (vnet : Nat) : Except Fault PerfectSwitch :=
  let incoming := s.roundRobinStart
  let s := { s with roundRobinStart := nextPort P s.roundRobinStart }
  if 0 < s.pendingMessageCount vnet then
    (portsAfter P P.inPorts.length incoming).foldlM (operatePort P currentTime random vnet) s
  else return s

/-- `PerfectSwitch::wakeup`: the virtual networks from the last to the first, but every once in a
while the other way round. -/
def wakeup (s : PerfectSwitch) : Except Fault PerfectSwitch :=
  let wakeupsWoSwitch := s.wakeupsWoSwitch + 1
  let inverted := decide (prioritySwitchLimit < wakeupsWoSwitch)
  let s := { s with
    wakeupsWoSwitch := if inverted then 0 else wakeupsWoSwitch
    scheduled := false }
  (if inverted then List.range P.virtualNetworks else (List.range P.virtualNetworks).reverse).foldlM
    (operateVnet P currentTime random) s

def storeEventInfo (s : PerfectSwitch) (info : Nat) : PerfectSwitch :=
  { s with
    pendingMessageCount := update s.pendingMessageCount info
      (s.pendingMessageCount info + 1) }

/-! ### Runs -/

/-- The ports have been added, and the queues of the input ports are empty. -/
structure Initial (s : PerfectSwitch) : Prop where
  inBuf : ∀ q, (s.inBuf q).prioHeap = []
  linkOrder : s.linkOrder = plainOrder P
  roundRobinStart : s.roundRobinStart = 0
  pendingMessageCount : ∀ n, s.pendingMessageCount n = 0

/-- The runs of a switch: others fill its input queues and use its output queues, and it wakes up.
-/
inductive Run : PerfectSwitch → Prop where
  | start {s : PerfectSwitch} (h : Initial P s) : Run s
  | arrive {s : PerfectSwitch} {b : MessageBuffer} {m : Message}
      {port vnet t delta rnd arrival : Nat} (h : Run s) (hport : P.hasBuffer port vnet = true)
      (henq : (s.inBuf (port, vnet)).enqueue P.flags m t delta rnd = .ok (b, arrival)) :
      Run ({ s with inBuf := update s.inBuf (port, vnet) b }.storeEventInfo vnet)
  | depart {s : PerfectSwitch} {outBuf : Nat × Nat → MessageBuffer} (h : Run s) :
      Run { s with outBuf := outBuf }
  | wake {s s' : PerfectSwitch} {currentTime : Nat} {random : Nat → Nat} (h : Run s)
      (hw : s.wakeup P currentTime random = .ok s') : Run s'

end PerfectSwitch

end NocSwap
