import NocSwap.Garnet.NetworkInterface
import NocSwap.Garnet.Router

/-!
# Runs of the network

A step is the wakeup of one object, an operation of the protocol on the buffers of an interface, or
the end of the cycle.
-/

namespace NocSwap

/-- What a protocol controller does with the buffers it shares with its interface. -/
inductive ProtocolOp where
  | send (vnet : Nat) (m : Message) (delta rnd : Nat)
  | receive (vnet : Nat)
  | recycle (vnet latency : Nat)
  | delayHead (vnet delta rnd : Nat)
  | stall (vnet addr : Nat)
  | reanalyze (vnet addr : Nat)
  | reanalyzeAll (vnet : Nat)

inductive Label where
  | wake (c : Consumer) (rnd : Nat → Nat)
  | protocol (n : Nat) (op : ProtocolOp)
  | tick

namespace Params

variable (P : Params)

def links : List Link :=
  (List.range P.numNodes).map .extIn ++ (List.range P.numNodes).map .extOut ++
  (List.range P.numRouters).flatMap fun r =>
    (meshDirns.filter fun d => (P.nbr r d).isSome).map fun d => .int r d

def consumers : List Consumer :=
  (List.range P.numRouters).map .router ++ (List.range P.numNodes).map .ni ++
  P.links.map .link ++ P.links.map .creditLink

end Params

variable (P : Params)

def wakeup (c : Consumer) (rnd : Nat → Nat) (s : Net) : Act :=
  match c with
  | .router r => routerWakeup P r rnd s
  | .ni n => niWakeup P n rnd s
  | .link l => return linkWakeup P l s
  | .creditLink l => return creditLinkWakeup P l s

/-- `NetworkInterface::dequeueCallback`, when it is registered with buffer `b`. -/
def dequeueCallback (n : Nat) (b : MessageBuffer) (s : Net) : Net :=
  if b.dequeueCallback then s.schedule (.ni n) (s.now + 1) else s

def protocolStep (n : Nat) (op : ProtocolOp) (s : Net) : Act :=
  match op with
  | .send vnet m delta rnd => do
    let (b, arrival) ← ((s.ni n).inNode vnet).enqueue P.rubyFlags m s.now delta rnd
    return (s.setInNode n vnet b).schedule (.ni n) arrival
  | .receive vnet => do
    let (b, _) ← ((s.ni n).outNode vnet).dequeue s.now true
    return dequeueCallback n b (s.setOutNode n vnet b)
  | .recycle vnet latency => do
    let (b, _) ← ((s.ni n).outNode vnet).recycle s.now latency
    return s.setOutNode n vnet b
  | .delayHead vnet delta rnd => do
    let (b, _) ← ((s.ni n).outNode vnet).delayHead P.rubyFlags s.now delta rnd
    return s.setOutNode n vnet b
  | .stall vnet addr => do
    let b ← ((s.ni n).outNode vnet).stallMessage addr s.now
    return dequeueCallback n b (s.setOutNode n vnet b)
  | .reanalyze vnet addr => do
    let b ← ((s.ni n).outNode vnet).reanalyzeMessages addr s.now
    return s.setOutNode n vnet b
  | .reanalyzeAll vnet => do
    let b ← ((s.ni n).outNode vnet).reanalyzeAllMessages s.now
    return s.setOutNode n vnet b

@[simps]
def Net.fire (s : Net) (c : Consumer) : Net :=
  { s with events := Function.update s.events c ((s.events c).erase s.now) }

def exec (l : Label) (s : Net) : Act :=
  match l with
  | .wake c rnd => wakeup P c rnd (s.fire c)
  | .protocol n op => protocolStep P n op s
  | .tick => return { s with now := s.now + 1 }

def CycleDone (s : Net) : Prop := ∀ c ∈ P.consumers, s.now ∉ s.events c

instance (s : Net) : Decidable (CycleDone P s) := inferInstanceAs (Decidable (∀ _ ∈ _, _))

def ProtocolOp.HasNode (n : Nat) : ProtocolOp → Prop
  | .send vnet _ _ _ => vnet < P.virtualNetworks ∧ P.hasInNode n vnet = true
  | .receive vnet | .recycle vnet _ | .delayHead vnet _ _ | .stall vnet _ | .reanalyze vnet _
  | .reanalyzeAll vnet => vnet < P.virtualNetworks ∧ P.hasOutNode n vnet = true

instance (n : Nat) : (op : ProtocolOp) → Decidable (op.HasNode P n)
  | .send .. => inferInstanceAs (Decidable (_ ∧ _))
  | .receive .. | .recycle .. | .delayHead .. | .stall .. | .reanalyze .. | .reanalyzeAll .. =>
    inferInstanceAs (Decidable (_ ∧ _))

def Enabled (s : Net) : Label → Prop
  | .wake c _ => c ∈ P.consumers ∧ s.now ∈ s.events c
  | .protocol n op => n < P.numNodes ∧ op.HasNode P n
  | .tick => CycleDone P s

instance (s : Net) : (l : Label) → Decidable (Enabled P s l)
  | .wake .. => inferInstanceAs (Decidable (_ ∧ _))
  | .protocol .. => inferInstanceAs (Decidable (_ ∧ _))
  | .tick => inferInstanceAs (Decidable (CycleDone P s))

inductive Reachable : Net → Prop
  | init : Reachable (Net.init P)
  | step {s s' : Net} (l : Label) : Reachable s → Enabled P s l → exec P l s = .ok s' → Reachable s'

inductive ReachableBy (C : Net → Label → Prop) : Net → Prop
  | init : ReachableBy C (Net.init P)
  | step {s s' : Net} (l : Label) : ReachableBy C s → Enabled P s l → C s l → exec P l s = .ok s' →
      ReachableBy C s'

variable {C : Net → Label → Prop} {s : Net}

theorem ReachableBy.reachable {P : Params} (h : ReachableBy P C s) : Reachable P s := by
  induction h with
  | init => exact .init
  | step l _ hen _ hex ih => exact .step l ih hen hex

inductive Trace : List (Net × Label) → Net → Prop
  | init : Trace [] (Net.init P)
  | step {past : List (Net × Label)} {s s' : Net} (l : Label) : Trace past s → Enabled P s l →
      exec P l s = .ok s' → Trace ((s, l) :: past) s'

variable {past : List (Net × Label)}

theorem Trace.reachable {P : Params} (h : Trace P past s) : Reachable P s := by
  induction h with
  | init => exact .init
  | step l _ hen hex ih => exact .step l ih hen hex

def run : List Label → Net → Option Net
  | [], s => some s
  | l :: rest, s =>
    if Enabled P s l then
      match exec P l s with
      | .ok s' => run rest s'
      | .error _ => none
    else none

variable {s' : Net} {ls : List Label}

theorem reachable_of_run {P : Params} (hs : Reachable P s)
    (h : run P ls s = some s') : Reachable P s' := by
  induction ls generalizing s with
  | nil => cases h; exact hs
  | cons l rest ih =>
    simp only [run] at h
    split_ifs at h with hen
    cases hex : exec P l s with
    | ok t => rw [hex] at h; exact ih (.step l hs hen hex) h
    | error e => rw [hex] at h; cases h

theorem reachableBy_of_run {P : Params} (hs : ReachableBy P C s) (hC : ∀ l ∈ ls, ∀ s, C s l)
    (h : run P ls s = some s') : ReachableBy P C s' := by
  induction ls generalizing s with
  | nil => cases h; exact hs
  | cons l rest ih =>
    obtain ⟨hl, hrest⟩ := List.forall_mem_cons.mp hC
    simp only [run] at h
    split_ifs at h with hen
    cases hex : exec P l s with
    | ok t => rw [hex] at h; exact ih (.step l hs hen (hl s) hex) hrest h
    | error e => rw [hex] at h; cases h

def runTrace : List Label → List (Net × Label) → Net → Option (List (Net × Label) × Net)
  | [], past, s => some (past, s)
  | l :: rest, past, s =>
    if Enabled P s l then
      match exec P l s with
      | .ok s' => runTrace rest ((s, l) :: past) s'
      | .error _ => none
    else none

theorem trace_of_run {P : Params} {past' : List (Net × Label)}
    (hs : Trace P past s) (h : runTrace P ls past s = some (past', s')) : Trace P past' s' := by
  induction ls generalizing past s with
  | nil =>
    obtain ⟨rfl, rfl⟩ := Prod.mk.inj (Option.some.inj h)
    exact hs
  | cons l rest ih =>
    simp only [runTrace] at h
    split_ifs at h with hen
    cases hex : exec P l s with
    | ok t => rw [hex] at h; exact ih (.step l hs hen hex) h
    | error e => rw [hex] at h; cases h

/-! ### Simulation -/

def firstLabel (s : Net) : Label :=
  match P.consumers.find? fun c => decide (s.now ∈ s.events c) with
  | some c => .wake c fun _ => 0
  | none => .tick

theorem firstLabel_enabled (s : Net) : Enabled P s (firstLabel P s) := by
  unfold firstLabel
  split
  · rename_i c hc
    exact ⟨List.mem_of_find?_eq_some hc, of_decide_eq_true (List.find?_some hc :)⟩
  · rename_i hnone
    intro c hc
    simpa using List.find?_eq_none.mp hnone c hc

def simulate : Nat → Net → Option Net
  | 0, s => some s
  | n + 1, s =>
    match exec P (firstLabel P s) s with
    | .ok s' => simulate n s'
    | .error _ => none

variable {n : Nat}

theorem reachable_of_simulate (h : Reachable P s)
    (hs : simulate P n s = some s') : Reachable P s' := by
  induction n generalizing s with
  | zero => exact Option.some.inj hs ▸ h
  | succ n ih =>
    unfold simulate at hs
    split at hs
    · rename_i t ht
      exact ih (.step _ h (firstLabel_enabled P s) ht) hs
    · cases hs

/-- The network left to itself after a run. -/
theorem reachable_of_run_simulate {ls : List Label} {s₀ : Net} (h : Reachable P s₀)
    (hs : (run P ls s₀).bind (simulate P n) = some s) : Reachable P s := by
  obtain ⟨t, ht, hsim⟩ := Option.bind_eq_some_iff.mp hs
  exact reachable_of_simulate _ (reachable_of_run h ht) hsim

def simulateTrace : Nat → List (Net × Label) → Net → Option (List (Net × Label) × Net)
  | 0, past, s => some (past, s)
  | n + 1, past, s =>
    match exec P (firstLabel P s) s with
    | .ok s' => simulateTrace n ((s, firstLabel P s) :: past) s'
    | .error _ => none

theorem trace_of_simulate {past' : List (Net × Label)}
    (h : Trace P past s) (hs : simulateTrace P n past s = some (past', s')) : Trace P past' s' := by
  induction n generalizing past s with
  | zero =>
    obtain ⟨rfl, rfl⟩ := Prod.mk.inj (Option.some.inj hs)
    exact h
  | succ n ih =>
    unfold simulateTrace at hs
    split at hs
    · rename_i t ht
      exact ih (.step _ h (firstLabel_enabled P s) ht) hs
    · cases hs

/-- The past and the state after `n` steps with messages given by source, destination and delay. -/
def sendTrace (sends : List (Nat × Nat × Nat)) (n : Nat) : Option (List (Net × Label) × Net) :=
  (runTrace P (sends.map fun x => .protocol x.1 (.send 0 ⟨0, 0, 0, 0, .singleton x.2.1⟩ x.2.2 0)) []
    (.init P)).bind fun x => simulateTrace P n x.1 x.2

theorem trace_of_send {sends : List (Nat × Nat × Nat)} {x : List (Net × Label) × Net}
    (h : sendTrace P sends n = some x) : Trace P x.1 x.2 := by
  obtain ⟨y, hy, hx⟩ := Option.bind_eq_some_iff.mp h
  exact trace_of_simulate P (trace_of_run .init hy) hx

def simulateBy (C : Net → Label → Prop) [∀ s l, Decidable (C s l)] : Nat → Net → Option Net
  | 0, s => some s
  | n + 1, s =>
    if C s (firstLabel P s) then
      match exec P (firstLabel P s) s with
      | .ok s' => simulateBy C n s'
      | .error _ => none
    else none

theorem reachableBy_of_simulateBy [∀ s l, Decidable (C s l)] (h : ReachableBy P C s)
    (hs : simulateBy P C n s = some s') : ReachableBy P C s' := by
  induction n generalizing s with
  | zero => exact Option.some.inj hs ▸ h
  | succ n ih =>
    unfold simulateBy at hs
    split_ifs at hs with hC
    split at hs
    · rename_i t ht
      exact ih (.step _ h (firstLabel_enabled P s) hC ht) hs
    · cases hs

/-! ### Small networks -/

def Params.pair : Params :=
  { Params.mesh 1 2 (by decide) with
    vcsPerVnet := 1
    vcs_pos := Nat.one_pos
    routingAlgorithm := .xy
    interswap := true
    whenToSwap := 1
    when_pos := fun _ => by decide }

/-- A message for node `1` is enqueued at interface `0` of the pair and its flit passes the first
router. -/
def pairRun : List Label :=
  let zero : Nat → Nat := fun _ => 0
  [.protocol 0 (.send 0 ⟨0, 0, 0, 0, .singleton 1⟩ 1 0), .tick, .wake (.ni 0) zero, .tick,
    .wake (.link (.extIn 0)) zero, .tick, .wake (.router 0) zero]

/-- A row of four routers with one channel and swaps in every cycle. -/
def Params.quad : Params :=
  { Params.mesh 1 4 (by decide) with
    vcsPerVnet := 1
    vcs_pos := Nat.one_pos
    routerLatency := fun _ => 3
    routingAlgorithm := .xy
    interswap := true
    whenToSwap := 1
    when_pos := fun _ => by decide
    injSingleVnet := 1 }

/-- The row after `n` steps with two messages for node `0`, from node `3` and, three cycles later,
from node `2`. -/
def quadRun (n : Nat) : Option Net :=
  let m : Message := ⟨0, 0, 0, 0, .singleton 0⟩
  (run .quad [.protocol 3 (.send 0 m 1 0), .protocol 2 (.send 0 m 4 0)] (.init .quad)).bind
    (simulate .quad n)

theorem quadRun_reachable (h : quadRun n = some s) : Reachable .quad s := by
  unfold quadRun at h
  exact reachable_of_run_simulate _ .init h

/-- One router with three interfaces and two virtual networks of three channels, the second ordered.
-/
def Params.hub (injSingleVnet : Nat) : Params :=
  { Params.mesh 1 2 (by decide) with
    numCols := 1
    cols_pos := Nat.one_pos
    numNodes := 3
    nodes_gt := by decide
    niRouter := fun _ => 0
    niRouter_lt := fun _ => by decide
    virtualNetworks := 2
    vcsPerVnet := 3
    vcs_pos := by decide
    isVNetOrdered := fun vnet => vnet == 1
    routingAlgorithm := .xy
    injSingleVnet := injSingleVnet
    outNode := fun _ _ => ⟨1, false, false⟩ }

end NocSwap
