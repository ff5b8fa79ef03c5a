import Mathlib.Data.Nat.Sqrt

/-!
# The destinations of the synthetic traffic tester

The part of `GarnetSyntheticTraffic::generatePkt` that chooses the destination of a packet.
-/

namespace NocSwap.Tester

inductive TrafficType
  | BIT_COMPLEMENT_
  | BIT_REVERSE_
  | BIT_ROTATION_
  | NEIGHBOR_
  | SHUFFLE_
  | TORNADO_
  | TRANSPOSE_
  | UNIFORM_RANDOM_
  deriving DecidableEq, Repr

def reverseLoop : Nat → Nat → Nat → Nat
  | 0, _, reverse => reverse
  | i + 1, straight, reverse =>
    let reverse := reverse <<< 1
    let straight := straight >>> 1
    reverseLoop i straight (reverse ||| straight &&& 1)

def destination (numDestinations : Nat) (singleDest : Int) (traffic : TrafficType)
    (random source : Nat) : Nat :=
  let radix := numDestinations.sqrt
  let srcX := source % radix
  let srcY := source / radix
  if 0 ≤ singleDest then singleDest.toNat
  else match traffic with
    | .UNIFORM_RANDOM_ => random
    | .BIT_COMPLEMENT_ => (radix - srcY - 1) * radix + (radix - srcX - 1)
    | .BIT_REVERSE_ => reverseLoop (numDestinations.log2 - 1) source (source &&& 1)
    | .BIT_ROTATION_ =>
      if source % 2 = 0 then source / 2 else source / 2 + numDestinations / 2
    | .NEIGHBOR_ => srcY * radix + (srcX + 1) % radix
    | .SHUFFLE_ =>
      if source < numDestinations / 2 then source * 2 else source * 2 + 1 - numDestinations
    | .TRANSPOSE_ => srcX * radix + srcY
    -- `radix/2` is a division of integers, which leaves nothing to `ceil`
    | .TORNADO_ => srcY * radix + (srcX + radix / 2 - 1) % radix

end NocSwap.Tester
