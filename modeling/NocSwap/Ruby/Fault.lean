import Mathlib.Data.Nat.Notation

/-!
# Faults

One constructor for each assertion, panic or fatal error of the source, and for each access to what
does not exist.
-/

namespace NocSwap

inductive Fault where
  -- messages and their buffers
  | delayedTicks
  | enqueueDelta
  | arrivalTime
  | fifoOrder
  | enqueuedEarly
  | dequeueNotReady
  | emptyBuffer
  | noStalledMessage
  | stallMapSize
  -- credits and the state of virtual channels
  | incrementCredit
  | decrementCredit
  -- route computation
  | noRoute
  | destinationReached
  | customRouting
  -- the swap pointer
  | ptrPortOutOfRange
  | ptrVcOutOfRange
  | movSwapPtrVcid
  | movSwapPtrEmpty
  | movSwapPtrDirn
  | movSwapPtrLocal
  | makeSwapPtrValid
  | makeSwapPtrVcid
  | makeSwapPtrLocal
  -- swaps
  | portOutOfRange
  | vcOutOfRange
  | downstreamDirn
  | upstreamDirn
  | routerOutOfRange
  | freeVcLocal
  | freeVcDirn
  | outportDirEmpty
  | outportDirMismatch
  | doSwapLocal
  | enqueueLocal
  | enqueueVc
  | enqueueRouted
  | enqueueDirn
  | noIsSwapValue
  | swapVcid
  | bailOutPtr
  | bailOutEmpty
  | bailOutLocal
  | bailOutFacing
  | routedIsSwap
  | ptrDirn
  | ptrUnset
  -- the pipeline of a router
  | notHead
  | vcNotIdle
  | outdirMismatch
  | pipeStages
  | needStage
  | vnetOutOfRange
  | outvcSet
  | noFreeVc
  | grantIsSwap
  | grantSendRoutedSwap
  | grantVcReady
  -- network interfaces
  | possibleDeadlock
  | injSingleVnet
  | nodeOutOfRange
  | nullNode
  -- the simple network
  | unitsRemaining
  | linkBandwidth
  | linkOrder
  | destinationsLeft
  | outQueue
  deriving DecidableEq

end NocSwap
