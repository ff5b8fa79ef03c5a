import NocSwap.Garnet.CommonTypes

/-!
# The swap pointer

Every router keeps a pointer to the virtual channel whose flit it will next try to swap.
-/

namespace NocSwap

structure SwapPtr where
  valid : Bool
  inport : Int
  vcid : Int
  inportDirn : PortDirection
  deriving DecidableEq

namespace SwapPtr

def new : SwapPtr := ⟨false, -1, -1, .Unknown⟩

/-- What `movSwapPtr` reads of a router. -/
structure View where
  dirns : List PortDirection
  numVcs : Nat
  whichToSwap : WhichToSwap
  isEmpty : Nat → Nat → Bool

/-- The loop of `movSwapPtr` over the channels of port `p`: `swap_ptr.vcid` is incremented in place,
only the copy `invc` is brought back to `0`. -/
def scanVcs (w : View) (p : Nat) : Nat → Int → Int → Except Fault (Int × Int × Bool)
  | 0, vcid, invc => .ok (vcid, invc, false)
  | itr + 1, vcid, _ => do
    let invc := if w.numVcs ≤ vcid then 0 else vcid
    require .ptrVcOutOfRange (0 ≤ invc)
    if w.isEmpty p invc.toNat = false then return (vcid + 1, invc, true)
    else scanVcs w p itr (vcid + 1) invc

def scanInports (w : View) : Nat → SwapPtr → Int → Except Fault (SwapPtr × Int)
  | 0, sp, invc => .ok (sp, invc)
  | itr + 1, sp, invc => do
    let inport := if sp.inport + 1 = w.dirns.length then 0 else sp.inport + 1
    let sp := { sp with inport := inport }
    require .ptrPortOutOfRange (0 ≤ inport)
    let dirn ← orFail .ptrPortOutOfRange w.dirns[inport.toNat]?
    if w.whichToSwap = .disableLocalSwap ∧ dirn = .Local then scanInports w itr sp invc
    else do
      let (vcid, invc, found) ← scanVcs w inport.toNat w.numVcs sp.vcid invc
      let sp := { sp with vcid := vcid }
      if found then return (sp, invc) else scanInports w itr sp invc

def movSwapPtr (w : View) (sp : SwapPtr) : Except Fault SwapPtr := do
  let (sp, invc) ← scanInports w w.dirns.length sp (-1)
  require .ptrPortOutOfRange (0 ≤ sp.inport)
  let dirn ← orFail .ptrPortOutOfRange w.dirns[sp.inport.toNat]?
  require .ptrVcOutOfRange (0 ≤ invc)
  if w.isEmpty sp.inport.toNat invc.toNat = false then
    require .movSwapPtrVcid (0 ≤ invc)
    require .movSwapPtrEmpty (w.isEmpty sp.inport.toNat invc.toNat = false)
    require .movSwapPtrDirn (dirn ≠ .Empty)
    require .movSwapPtrLocal (¬ (w.whichToSwap = .disableLocalSwap ∧ dirn = .Local))
    return ⟨true, sp.inport, invc, dirn⟩
  else return { sp with valid := false, inport := -1, vcid := -1 }

/-- `Router::makeSwapPtrValid`, `inport` being the number of the port of direction `dirn`. -/
def makeSwapPtrValid (sp : SwapPtr) (dirn : PortDirection) (inport vc : Nat) :
    Except Fault SwapPtr := do
  require .makeSwapPtrValid (sp.valid = false)
  require .makeSwapPtrVcid (sp.vcid = -1)
  require .makeSwapPtrLocal (dirn ≠ .Local)
  return ⟨true, inport, vc, dirn⟩

end SwapPtr

end NocSwap
