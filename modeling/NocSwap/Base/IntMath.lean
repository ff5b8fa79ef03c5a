import Mathlib.Algebra.Group.Nat.Defs
import NocSwap.Lib.Outcome

/-!
# Integer arithmetic

`isPrime` and `prevPrime` of `base/intmath.hh` and `base/intmath.cc`, for `int`. From `1` on no number
becomes negative, since every number below 25 passes the test; `prevPrime(0)` is `-1` in the source.
-/

namespace NocSwap.Base

/-- A product of `int`s that does not fit, or more passes than allowed. -/
inductive IntFault
  | overflow | passes
  deriving DecidableEq, Repr

def isPrimeLoop (n : Nat) : Nat → Nat → Except IntFault Bool
  | 0, _ => .error .passes
  | fuel + 1, i => do
    require .overflow (i * i < 2 ^ 31)
    if i * i ≤ n then
      if n % i = 0 ∨ n % (i + 2) = 0 then return false
      else isPrimeLoop n fuel (i + 6)
    else return true

def isPrime (n : Nat) : Except IntFault Bool :=
  if n = 2 ∨ n = 3 then return true else isPrimeLoop n (n + 1) 5

def prevPrimeLoop : Nat → Nat → Nat → Except IntFault Nat
  | 0, _, _ => .error .passes
  | fuel + 1, n, decr => do
    if ← isPrime n then return n else prevPrimeLoop fuel (n - decr) (6 - decr)

/-- The previous odd number of an even one. -/
def oddStart (n : Nat) : Nat := if n % 2 = 0 then n - 1 else n

def prevPrime (n : Nat) : Except IntFault Nat :=
  let n := oddStart n
  let decr := n % 3
  if decr = 0 then prevPrimeLoop (n + 1) (n - 2) 2
  else if decr = 1 then prevPrimeLoop (n + 1) n 4
  else prevPrimeLoop (n + 1) n decr

end NocSwap.Base
