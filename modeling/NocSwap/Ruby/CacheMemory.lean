import Mathlib.Tactic.Simps.Basic
import NocSwap.Base.AddrRange
import NocSwap.Lib.Update

/-!
# Cache memories

`CacheMemory` of `mem/ruby/structures`: sets of ways, and `m_tag_index`, from the address of a line
to its way.
-/

namespace NocSwap.Ruby

def bitSelect (addr : Addr) (small big : Nat) : Addr :=
  if 63 ≤ big then addr >>> small
  else (addr &&& ~~~ (BitVec.allOnes 64 <<< (big + 1))) >>> small

def bitRemove (addr : Addr) (small big : Nat) : Addr :=
  if 63 ≤ small then addr
  else if 63 ≤ big then addr &&& BitVec.allOnes 64 >>> small
  else if small = 0 then addr &&& BitVec.allOnes 64 <<< big
  else
    let lowerBits := addr &&& ~~~ (BitVec.allOnes 64 <<< small)
    let higherBits := addr &&& BitVec.allOnes 64 <<< (big + 1)
    higherBits >>> (big - small + 1) ||| lowerBits

def maskLowOrderBits (addr : Addr) (number : Nat) : Addr :=
  addr &&& (if 63 ≤ number then BitVec.allOnes 64 else BitVec.allOnes 64 <<< number)

inductive AccessPermission
  | Read_Only | Read_Write | Maybe_Stale | Backing_Store | Invalid | NotPresent | Busy
  deriving DecidableEq, Repr

structure AbstractCacheEntry where
  address : Addr
  permission : AccessPermission
  locked : Int
  setIndex : Nat
  wayIndex : Nat
  deriving DecidableEq, Repr

def AbstractCacheEntry.changePermission (e : AbstractCacheEntry) (perm : AccessPermission) :
    AbstractCacheEntry :=
  { e with
    permission := perm
    locked := if perm = .Invalid ∨ perm = .NotPresent then -1 else e.locked }

structure CacheGeometry where
  cacheSize : Nat
  cacheAssoc : Nat
  blockSize : Nat
  startIndexBit : Nat
  /-- `RubySystem::getBlockSizeBits()`. -/
  blockSizeBits : Nat
  numSets_gt : 1 < cacheSize / cacheAssoc / blockSize

namespace CacheGeometry

variable (G : CacheGeometry)

def numSets : Nat := G.cacheSize / G.cacheAssoc / G.blockSize

def numSetBits : Nat := Nat.log2 G.numSets

def makeLineAddress (a : Addr) : Addr := maskLowOrderBits a G.blockSizeBits

def IsLine (a : Addr) : Prop := a = G.makeLineAddress a

instance (a : Addr) : Decidable (G.IsLine a) := inferInstanceAs (Decidable (_ = _))

def setOf (a : Addr) : Nat :=
  (bitSelect a G.startIndexBit (G.startIndexBit + G.numSetBits - 1)).toNat

end CacheGeometry

/-- A failed assertion, the panic of `allocate`, or an access to what does not exist. -/
inductive CacheFault
  | lineAddress | tagPresent | tagNotPresent | notAvail
  | noWay | outOfRange | nullPointer
  deriving DecidableEq, Repr

structure CacheMemory where
  cache : Nat → Nat → Option AbstractCacheEntry
  tagIndex : Addr → Option Nat

namespace CacheMemory

def new : CacheMemory := ⟨fun _ _ => none, fun _ => none⟩

variable (G : CacheGeometry) (m : CacheMemory)

def ways (set : Nat) : Except CacheFault (Nat → Option AbstractCacheEntry) := do
  require .outOfRange (set < G.numSets)
  return m.cache set

def addressToCacheSet (a : Addr) : Except CacheFault Nat := do
  require .lineAddress (G.IsLine a)
  return G.setOf a

def findTagInSet (set : Nat) (tag : Addr) : Except CacheFault (Option Nat) := do
  require .lineAddress (G.IsLine tag)
  match m.tagIndex tag with
  | some way => do
    let row ← m.ways G set
    require .outOfRange (way < G.cacheAssoc)
    let e ← orFail .nullPointer (row way)
    return if e.permission ≠ .NotPresent then some way else none
  | none => return none

def isTagPresent (a : Addr) : Except CacheFault Bool := do
  let set ← addressToCacheSet G a
  let loc ← m.findTagInSet G set a
  return loc.isSome

def availFor (a : Addr) : Option AbstractCacheEntry → Bool
  | some e => decide (e.address = a ∨ e.permission = .NotPresent)
  | none => true

def cacheAvail (a : Addr) : Except CacheFault Bool := do
  let set ← addressToCacheSet G a
  let row ← m.ways G set
  return (List.range G.cacheAssoc).any fun i => availFor a (row i)

def isOpen : Option AbstractCacheEntry → Bool
  | some e => decide (e.permission = .NotPresent)
  | none => true

@[simps]
def setEntry (set way : Nat) (e : Option AbstractCacheEntry) (a : Addr) (loc : Option Nat) :
    CacheMemory where
  cache := set2 m.cache set way e
  tagIndex := Function.update m.tagIndex a loc

def allocate (a : Addr) : Except CacheFault CacheMemory := do
  let present ← m.isTagPresent G a
  require .tagPresent (present = false)
  let avail ← m.cacheAvail G a
  require .notAvail (avail = true)
  let set ← addressToCacheSet G a
  let row ← m.ways G set
  let i ← orFail .noWay ((List.range G.cacheAssoc).find? fun i => isOpen (row i))
  return m.setEntry set i (some ⟨a, .Invalid, -1, set, i⟩) a (some i)

def deallocate (a : Addr) : Except CacheFault CacheMemory := do
  let present ← m.isTagPresent G a
  require .tagNotPresent (present = true)
  let set ← addressToCacheSet G a
  let loc ← m.findTagInSet G set a
  match loc with
  | some way => return m.setEntry set way none a none
  | none => return m

def lookup (a : Addr) : Except CacheFault (Option AbstractCacheEntry) := do
  let set ← addressToCacheSet G a
  let loc ← m.findTagInSet G set a
  match loc with
  | some way => do
    let row ← m.ways G set
    return row way
  | none => return none

@[simps]
def changePermission (set way : Nat) (perm : AccessPermission) : CacheMemory :=
  { m with cache := set2 m.cache set way ((m.cache set way).map (·.changePermission perm)) }

/-! ### Sequences of calls -/

inductive Op
  | allocate (a : Addr)
  | deallocate (a : Addr)
  | changePermission (set way : Nat) (perm : AccessPermission)

def exec : Op → Except CacheFault CacheMemory
  | .allocate a => m.allocate G a
  | .deallocate a => m.deallocate G a
  | .changePermission set way perm => return m.changePermission set way perm

def run (ops : List Op) (m : CacheMemory) : Except CacheFault CacheMemory :=
  ops.foldlM (fun m op => m.exec G op) m

end CacheMemory

end NocSwap.Ruby
