import NocSwap.Garnet.Run

/-!
# Functional writes

`GarnetNetwork::functionalWrite` has every flit in the network write the packet into its message.
-/

namespace NocSwap

/-- `Message::functionalWrite`: the message after it, and whether it was written. -/
abbrev MessageWrite := Message → Message × Bool

variable (P : Params) (w : MessageWrite)

def Flit.functionalWrite (f : Flit) : Flit × Bool := ({ f with msg := (w f.msg).1 }, (w f.msg).2)

/-- `flitBuffer::functionalWrite` of the buffer at place `b`. -/
def Buf.functionalWrite (b : Buf) : StateM Net Nat := do
  let s ← get
  set (s.setBuf b ((s.buf b).map fun f => (f.functionalWrite w).1))
  return (s.buf b).countP fun f => (f.functionalWrite w).2

def sumWrites {α : Type} (l : List α) (write : α → StateM Net Nat) : StateM Net Nat :=
  l.foldlM (fun num a => do return num + (← write a)) 0

/-- `CrossbarSwitch::functionalWrite` of router `r`. -/
def CrossbarSwitch.functionalWrite (r : Nat) : StateM Net Nat :=
  sumWrites (List.range (P.inports r).length) fun i => (Buf.switchBuffer r i).functionalWrite w

/-- `InputUnit::functionalWrite` of the input unit of port `p`. -/
def InputUnit.functionalWrite (p : Port) : StateM Net Nat :=
  sumWrites (List.range P.numVcs) fun v => (Buf.inputVc p.link v).functionalWrite w

/-- `OutputUnit::functionalWrite` of the output unit of port `p`. -/
def OutputUnit.functionalWrite (p : Port) : StateM Net Nat :=
  (Buf.srcQueue p.link).functionalWrite w

def Router.functionalWrite (r : Nat) : StateM Net Nat := do
  let crossbar ← CrossbarSwitch.functionalWrite P w r
  let inputs ← sumWrites (P.inports r) (InputUnit.functionalWrite P w)
  let outputs ← sumWrites (P.outports r) (OutputUnit.functionalWrite w)
  return crossbar + inputs + outputs

def NetworkInterface.functionalWrite (n : Nat) : StateM Net Nat := do
  let vcs ← sumWrites (List.range P.numVcs) fun v => (Buf.niOutVc n v).functionalWrite w
  let queue ← (Buf.srcQueue (.extIn n)).functionalWrite w
  return vcs + queue

def NetworkLink.functionalWrite (l : Link) : StateM Net Nat := (Buf.linkBuffer l).functionalWrite w

def GarnetNetwork.functionalWrite : StateM Net Nat := do
  let routers ← sumWrites (List.range P.numRouters) (Router.functionalWrite P w)
  let nis ← sumWrites (List.range P.numNodes) (NetworkInterface.functionalWrite P w)
  let links ← sumWrites P.links (NetworkLink.functionalWrite w)
  return routers + nis + links

end NocSwap
