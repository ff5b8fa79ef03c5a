import NocSwap.Garnet.NetworkInterface
import NocSwap.Ruby.Correct.NetDest

/-!
# From multicast to unicast

`flitisizeMessage` makes a flit for each destination that has a channel, and leaves the others to a
later call.
-/

namespace NocSwap.Multicast

variable {M : Ruby.Machines} {σ : Type}

/-- `route.dest_ni`, `route.net_dest`, the destination of the clone and the channel of a flit. -/
structure Unicast (M : Ruby.Machines) where
  vc : Nat
  destNi : Nat
  netDest : Ruby.NetDest M
  msgDest : Ruby.NetDest M

/-- What `flitisizeMessage` calls: `calculateVC` and the insertion of a flit. -/
structure Injector (M : Ruby.Machines) (σ : Type) where
  calculateVC : σ → Except Fault (Option Nat × σ)
  insert : Unicast M → Ruby.NetDest M → σ → Except Fault σ

/-- What a call returns, the flits it has made, and the destination that it leaves. -/
structure Call (M : Ruby.Machines) (σ : Type) where
  done : Bool
  flits : List (Unicast M)
  left : Ruby.NetDest M
  state : σ

/-- The destinations of the clone and of the original when a flit for `destID` is made. -/
def personalize (destID : Nat) (d : Ruby.NetDest M) : Ruby.NetDest M × Ruby.NetDest M :=
  match M.findMachine destID with
  | some id => ((Ruby.NetDest.clear M).add id, d.removeNetDest ((Ruby.NetDest.clear M).add id))
  -- the clone keeps its destination if no machine has the node id
  | none => (d, d.removeNetDest (Ruby.NetDest.clear M))

def cloneDest (multi : Bool) (destID : Nat) (d : Ruby.NetDest M) :
    Ruby.NetDest M × Ruby.NetDest M :=
  if multi then personalize destID d else (d, d)

/-- The loop of `flitisizeMessage` over the destinations; `multi` tells whether there were several.
-/
def flitisizeLoop (I : Injector M σ) (multi : Bool) :
    List Nat → Ruby.NetDest M → σ → Except Fault (Call M σ)
  | [], d, s => return ⟨true, [], d, s⟩
  | destID :: rest, d, s => do
    let x ← I.calculateVC s
    match x.1 with
    | none => return ⟨false, [], d, x.2⟩
    | some vc => do
      let dest := cloneDest multi destID d
      let f : Unicast M := ⟨vc, destID, dest.1, dest.1⟩
      let s ← I.insert f dest.2 x.2
      let c ← flitisizeLoop I multi rest dest.2 s
      return { c with flits := f :: c.flits }

/-- `NetworkInterface::flitisizeMessage`, for a message with destination `d`. -/
def flitisizeMessage (I : Injector M σ) (d : Ruby.NetDest M) (s : σ) : Except Fault (Call M σ) :=
  flitisizeLoop I (decide (1 < d.getAllDest.length)) d.getAllDest d s

/-- Successive calls on a message to `D`: the flits made, the destination left and the last answer.
-/
inductive Calls (I : Injector M σ) (D : Ruby.NetDest M) :
    List (Unicast M) → Ruby.NetDest M → Bool → Prop
  | start : Calls I D [] D false
  | call {fs : List (Unicast M)} {d : Ruby.NetDest M} {c : Call M σ} (s : σ) :
      Calls I D fs d false → flitisizeMessage I d s = .ok c →
      Calls I D (fs ++ c.flits) c.left c.done

/-- The injector of virtual network `vnet` of interface `n`, for the message at the head of the input
buffer. -/
def niInjector (P : Params) (n vnet : Nat) : Injector M Net where
  calculateVC := fun s => do
    let x ← NocSwap.calculateVC P n (if P.injSingleVnet = 0 then vnet else 0) s
    require .injSingleVnet (P.injSingleVnet = 0 ∨ P.injSingleVnet = 1)
    return x
  insert := fun f left s => do
    let m ← orFail .emptyBuffer ((s.ni n).inNode vnet).prioHeap.head?
    require .nodeOutOfRange (f.destNi < P.numNodes)
    let s := s.setInNode n vnet
      (((s.ni n).inNode vnet).setHead { m with destination := left.toNodes })
    return s.createFlit P n vnet f.vc f.destNi { m with destination := f.msgDest.toNodes }

end NocSwap.Multicast
