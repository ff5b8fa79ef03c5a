import NocSwap.Lib.Outcome

/-!
# Address ranges

`AddrRange` of `base/addr_range.hh`: the addresses between two bounds whose bits in one or two
slices, if any, give a matching value.
-/

namespace NocSwap

abbrev Addr := BitVec 64

namespace Base

/-! ### Bit fields -/

def mask (nbits : Int) : Addr :=
  if nbits = 64 then BitVec.allOnes 64 else (1#64 <<< nbits.toNat) - 1#64

def bits (val : Addr) (first last : Int) : Addr :=
  (val >>> last.toNat) &&& mask (first - last + 1)

def insertBits (val : Addr) (first last : Int) (bitVal : Addr) : Addr :=
  let bmask := mask (first - last + 1) <<< last.toNat
  ((bitVal <<< last.toNat) &&& bmask) ||| (val &&& ~~~ bmask)

/-! ### Ranges -/

structure AddrRange where
  _start : Addr
  _end : Addr
  intlvHighBit : UInt8
  xorHighBit : UInt8
  intlvBits : UInt8
  intlvMatch : UInt8
  deriving DecidableEq, Repr

inductive AddrRangeFault
  | matchDoesNotFit | sameHighBit | xorTooNear | intlvTooNear
  | wrongNumber | cannotMerge | unexpectedMatch
  | cannotTestIntersection | cannotTestSubset
  deriving DecidableEq, Repr

namespace AddrRange

def maxAddr : Addr := BitVec.allOnes 64

def new (start stop : Addr) (intlvHighBit xorHighBit intlvBits intlvMatch : UInt8) :
    Except AddrRangeFault AddrRange := do
  require .matchDoesNotFit
    (¬ (intlvBits ≠ 0 ∧ (1#64 <<< intlvBits.toNat).toNat ≤ intlvMatch.toNat))
  if intlvBits ≠ 0 ∧ xorHighBit ≠ 0 then
    if xorHighBit = intlvHighBit then .error .sameHighBit
    else if xorHighBit > intlvHighBit then
      require .xorTooNear (¬ (xorHighBit.toNat : Int) - intlvHighBit.toNat < intlvBits.toNat)
    else
      require .intlvTooNear (¬ (intlvHighBit.toNat : Int) - xorHighBit.toNat < intlvBits.toNat)
  return ⟨start, stop, intlvHighBit, xorHighBit, intlvBits, intlvMatch⟩

def plain (start stop : Addr) : AddrRange := ⟨start, stop, 0, 0, 0, 0⟩

def rangeSize (start size : Addr) : AddrRange := plain start (start + size - 1)

variable (r : AddrRange)

def interleaved : Bool := r.intlvBits != 0

def hashed : Bool := r.interleaved && r.xorHighBit != 0

def intlvLowBit : Int := r.intlvHighBit.toNat - r.intlvBits.toNat + 1

def xorLowBit : Int := r.xorHighBit.toNat - r.intlvBits.toNat + 1

def size : Addr := (r._end - r._start + 1) >>> r.intlvBits.toNat

def granularity : Addr :=
  if r.interleaved then
    if r.hashed then 1#64 <<< (min r.intlvLowBit r.xorLowBit).toNat
    else 1#64 <<< r.intlvLowBit.toNat
  else r.size

def inRange (a : Addr) : Bool := decide (r._start ≤ a ∧ a ≤ r._end)

def contains (a : Addr) : Bool :=
  if !r.interleaved then r.inRange a
  else if r.inRange a then
    if !r.hashed then
      decide ((bits a r.intlvHighBit.toNat r.intlvLowBit).toNat = r.intlvMatch.toNat)
    else
      decide ((bits a r.intlvHighBit.toNat r.intlvLowBit ^^^
        bits a r.xorHighBit.toNat r.xorLowBit).toNat = r.intlvMatch.toNat)
  else false

def mergesWith (q : AddrRange) : Bool :=
  decide (q._start = r._start ∧ q._end = r._end ∧ q.intlvHighBit = r.intlvHighBit ∧
    q.xorHighBit = r.xorHighBit ∧ q.intlvBits = r.intlvBits)

def mergeLoop (first : AddrRange) : List AddrRange → UInt8 → Except AddrRangeFault Unit
  | [], _ => return ()
  | q :: rest, next => do
    require .cannotMerge (first.mergesWith q = true)
    require .unexpectedMatch (q.intlvMatch = next)
    mergeLoop first rest (next + 1)

def merge (ranges : List AddrRange) : Except AddrRangeFault AddrRange :=
  match ranges with
  | [] => return ⟨1, 0, 0, 0, 0, 0⟩
  | first :: _ => do
    require .wrongNumber (ranges.length = (1#64 <<< first.intlvBits.toNat).toNat)
    mergeLoop { first with intlvMatch := 0 } ranges 0
    return plain first._start first._end

def intersects (q : AddrRange) : Except AddrRangeFault Bool :=
  if q._end < r._start ∨ r._end < q._start then return false
  else if !r.interleaved && !q.interleaved then return true
  else if q.size = 1 then return r.contains q._start
  else if r.mergesWith q then return decide (r.intlvMatch = q.intlvMatch)
  else .error .cannotTestIntersection

def isSubset (q : AddrRange) : Except AddrRangeFault Bool :=
  if r.interleaved then .error .cannotTestSubset
  else if q.interleaved then
    return q.contains r._start && q.contains r._end && decide (r.size ≤ q.granularity)
  else return decide (q._start ≤ r._start ∧ r._end ≤ q._end)

def removeIntlvBits (a : Addr) : Addr :=
  insertBits (a >>> r.intlvBits.toNat) (r.intlvLowBit - 1) 0 a

def getOffset (a : Addr) : Addr :=
  if !r.inRange a then maxAddr
  else if r.interleaved then r.removeIntlvBits a - r.removeIntlvBits r._start
  else a - r._start

def lt (q : AddrRange) : Bool :=
  if r._start ≠ q._start then decide (r._start < q._start)
  else decide (r.intlvMatch < q.intlvMatch)

end AddrRange

end Base

end NocSwap
