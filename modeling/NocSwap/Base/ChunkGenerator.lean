import Mathlib.Algebra.Group.Nat.Defs
import NocSwap.Base.AddrRange

/-!
# Chunks of a memory region

`ChunkGenerator` of `base/chunk_generator.hh`, with sizes of 32 bits.
-/

namespace NocSwap.Base

def roundUp (val align : Addr) : Addr :=
  let mask := align - 1
  (val + mask) &&& ~~~ mask

structure ChunkGenerator where
  curAddr : Addr
  nextAddr : Addr
  curSize : Nat
  sizeLeft : Nat
  startAddr : Addr
  chunkSize : Nat
  deriving DecidableEq, Repr

namespace ChunkGenerator

def firstNext (startAddr : Addr) (totalSize chunkSize : Nat) : Addr :=
  if chunkSize = 0 then startAddr + BitVec.ofNat 64 totalSize
  else
    let nextAddr := roundUp startAddr (BitVec.ofNat 64 chunkSize)
    -- the next chunk starts above a start that is aligned
    if startAddr = nextAddr then nextAddr + BitVec.ofNat 64 chunkSize else nextAddr

def new (startAddr : Addr) (totalSize chunkSize : Nat) : ChunkGenerator :=
  let nextAddr := firstNext startAddr totalSize chunkSize
  let leftInChunk := (nextAddr - startAddr).toNat % 2 ^ 32
  let curSize := min totalSize leftInChunk
  ⟨startAddr, nextAddr, curSize, totalSize - curSize, startAddr, chunkSize⟩

variable (g : ChunkGenerator)

def complete : Nat := (g.curAddr - g.startAddr).toNat % 2 ^ 32

def done : Bool := decide (g.curSize = 0)

def last : Bool := decide (g.sizeLeft = 0)

def next : ChunkGenerator :=
  if g.sizeLeft = 0 then { g with curSize := 0 }
  else
    let curSize := min g.sizeLeft g.chunkSize
    { g with
      curAddr := g.nextAddr, curSize := curSize, sizeLeft := g.sizeLeft - curSize
      nextAddr := g.nextAddr + BitVec.ofNat 64 curSize }

/-- The generator at each pass of `for (gen; !gen.done(); gen.next())`, if there are at most `fuel`.
-/
def run (fuel : Nat) (g : ChunkGenerator) : Option (List ChunkGenerator) :=
  if g.done then some []
  else
    match fuel with
    | 0 => none
    | fuel + 1 => (run fuel g.next).map (g :: ·)

end ChunkGenerator

end NocSwap.Base
