import Mathlib.Algebra.Order.Group.Multiset
import NocSwap.Protocol.MI.Types

/-!
# MI_example: the protocol of one line

What MI_example does for a single line, over a network without order.
-/

namespace NocSwap.MIExample

inductive CacheState (β : Type)
  | I | IS | IM | M (b : β) | MI (b : β) | MII (b : β) | II

def CacheState.data? {β : Type} : CacheState β → Option β
  | .M b | .MI b | .MII b => some b
  | _ => none

inductive LineMsg (β : Type)
  | getx (i : Nat)
  | putx (i : Nat) (b : β)
  /-- A request of `j` forwarded to `i`. -/
  | fwd (i j : Nat)
  | wbAck (i : Nat)
  | wbNack (i : Nat)
  | inv (i : Nat)
  | data (i : Nat) (b : β)
  /-- A read of the memory for the cache `r`, or for a DMA controller. -/
  | fetch (r : Option Nat)
  /-- The answer to such a read. -/
  | fetched (r : Option Nat) (b : β)
  /-- A write upon the write-back of the cache `r`, or for a DMA controller. -/
  | write (r : Option Nat) (f : β → β)
  /-- The answer to such a write. -/
  | written (r : Option Nat)

def LineMsg.hasData {β : Type} : LineMsg β → Bool
  | .putx .. | .data .. | .fetched .. | .write .. => true
  | _ => false

def DirState.isWriteback : DirState → Bool
  | .MI | .M_DRDI | .M_DWRI => true
  | _ => false

def DirState.atHome : DirState → Bool
  | .I | .IM | .MI | .ID | .ID_W | .M_DRDI | .M_DWRI => true
  | .M | .M_DRD | .M_DWR => false

structure LineState (β : Type) where
  cache : Nat → CacheState β
  dir : DirState
  owner : List Nat
  memory : β
  value : β
  msgs : Multiset (LineMsg β)

namespace LineState

variable {β : Type}

def setCache (s : LineState β) (i : Nat) (c : CacheState β) : LineState β :=
  { s with cache := Function.update s.cache i c }

inductive CacheMove (s : LineState β) : LineState β → Prop
  | request {i : Nat} {c : CacheState β} (h : s.cache i = .I) (hc : c = .IS ∨ c = .IM) :
      CacheMove s { s.setCache i c with msgs := .getx i ::ₘ s.msgs }
  | hit {i : Nat} {b b' : β} (h : s.cache i = .M b) :
      CacheMove s { s.setCache i (.M b') with value := b' }
  | receive {i : Nat} {b b' : β} {ms : Multiset (LineMsg β)} (h : s.cache i = .IS ∨ s.cache i = .IM)
      (hm : s.msgs = .data i b ::ₘ ms) :
      CacheMove s { s.setCache i (.M b') with value := b', msgs := ms }
  | forwardM {i j : Nat} {b : β} {ms : Multiset (LineMsg β)} (h : s.cache i = .M b)
      (hm : s.msgs = .fwd i j ::ₘ ms) :
      CacheMove s { s.setCache i .I with msgs := .data j b ::ₘ ms }
  | replace {i : Nat} {b : β} (h : s.cache i = .M b) :
      CacheMove s { s.setCache i (.MI b) with msgs := .putx i b ::ₘ s.msgs }
  | inv {i : Nat} {ms : Multiset (LineMsg β)} (hm : s.msgs = .inv i ::ₘ ms) :
      CacheMove s { s with msgs := ms }
  | wbAck {i : Nat} {b : β} {ms : Multiset (LineMsg β)} (h : s.cache i = .MI b)
      (hm : s.msgs = .wbAck i ::ₘ ms) :
      CacheMove s { s.setCache i .I with msgs := ms }
  | forwardMI {i j : Nat} {b : β} {ms : Multiset (LineMsg β)} (h : s.cache i = .MI b)
      (hm : s.msgs = .fwd i j ::ₘ ms) :
      CacheMove s { s.setCache i .II with msgs := .data j b ::ₘ ms }
  | wbNackMI {i : Nat} {b : β} {ms : Multiset (LineMsg β)} (h : s.cache i = .MI b)
      (hm : s.msgs = .wbNack i ::ₘ ms) :
      CacheMove s { s.setCache i (.MII b) with msgs := ms }
  | forwardMII {i j : Nat} {b : β} {ms : Multiset (LineMsg β)} (h : s.cache i = .MII b)
      (hm : s.msgs = .fwd i j ::ₘ ms) :
      CacheMove s { s.setCache i .I with msgs := .data j b ::ₘ ms }
  | wbNackII {i : Nat} {ms : Multiset (LineMsg β)} (h : s.cache i = .II)
      (hm : s.msgs = .wbNack i ::ₘ ms) :
      CacheMove s { s.setCache i .I with msgs := ms }

inductive DirMove (s : LineState β) : LineState β → Prop
  | fetch {i : Nat} {ms : Multiset (LineMsg β)} (hd : s.dir = .I) (hm : s.msgs = .getx i ::ₘ ms) :
      DirMove s { s with dir := .IM, owner := [i], msgs := .fetch (some i) ::ₘ ms }
  | forward {o j : Nat} {ms : Multiset (LineMsg β)} (hd : s.dir = .M) (ho : s.owner = [o])
      (hm : s.msgs = .getx j ::ₘ ms) :
      DirMove s { s with owner := [j], msgs := .fwd o j ::ₘ ms }
  | nack {i : Nat} {b : β} {ms : Multiset (LineMsg β)} (hd : s.dir = .I ∨ s.dir = .M)
      (ho : i ∉ s.owner) (hm : s.msgs = .putx i b ::ₘ ms) :
      DirMove s { s with msgs := .wbNack i ::ₘ ms }
  | writeback {i : Nat} {b : β} {d : DirState} {ms : Multiset (LineMsg β)}
      (hd : s.dir = .M ∧ d = .MI ∨ s.dir = .M_DRD ∧ d = .M_DRDI) (ho : i ∈ s.owner)
      (hm : s.msgs = .putx i b ::ₘ ms) :
      DirMove s { s with dir := d, owner := [], msgs := .write (some i) (fun _ => b) ::ₘ ms }
  | overwrite {i : Nat} {b : β} {f : β → β} {ms : Multiset (LineMsg β)} (hd : s.dir = .M_DWR)
      (ho : i ∈ s.owner) (hm : s.msgs = .putx i b ::ₘ ms) :
      DirMove s { s with
        dir := .M_DWRI, owner := [], value := f s.memory, msgs := .write (some i) f ::ₘ ms }
  | data {i : Nat} {b : β} {ms : Multiset (LineMsg β)} (hd : s.dir = .IM)
      (hm : s.msgs = .fetched (some i) b ::ₘ ms) :
      DirMove s { s with dir := .M, msgs := .data i b ::ₘ ms }
  | ack {i : Nat} {ms : Multiset (LineMsg β)} (hd : s.dir.isWriteback = true)
      (hm : s.msgs = .written (some i) ::ₘ ms) :
      DirMove s { s with dir := .I, msgs := .wbAck i ::ₘ ms }
  | dmaRead (hd : s.dir = .I) :
      DirMove s { s with dir := .ID, msgs := .fetch none ::ₘ s.msgs }
  | dmaWrite {f : β → β} (hd : s.dir = .I) :
      DirMove s { s with dir := .ID_W, value := f s.value, msgs := .write none f ::ₘ s.msgs }
  | dmaData {b : β} {ms : Multiset (LineMsg β)} (hd : s.dir = .ID)
      (hm : s.msgs = .fetched none b ::ₘ ms) :
      DirMove s { s with dir := .I, msgs := ms }
  | dmaAck {ms : Multiset (LineMsg β)} (hd : s.dir = .ID_W) (hm : s.msgs = .written none ::ₘ ms) :
      DirMove s { s with dir := .I, msgs := ms }
  | dmaInv {o : Nat} {d : DirState} (hd : s.dir = .M) (ho : s.owner = [o])
      (hd' : d = .M_DRD ∨ d = .M_DWR) :
      DirMove s { s with dir := d, msgs := .inv o ::ₘ s.msgs }
  | serveFetch {r : Option Nat} {ms : Multiset (LineMsg β)} (hm : s.msgs = .fetch r ::ₘ ms) :
      DirMove s { s with msgs := .fetched r s.memory ::ₘ ms }
  | serveWrite {r : Option Nat} {f : β → β} {ms : Multiset (LineMsg β)}
      (hm : s.msgs = .write r f ::ₘ ms) :
      DirMove s { s with memory := f s.memory, msgs := .written r ::ₘ ms }

inductive Step (s : LineState β) : LineState β → Prop
  | idle : Step s s
  | cache {s' : LineState β} (h : CacheMove s s') : Step s s'
  | dir {s' : LineState β} (h : DirMove s s') : Step s s'

def init (b : β) : LineState β := ⟨fun _ => .I, .I, [], b, b, 0⟩

end LineState

namespace LineMsg

variable {β : Type}

inductive Kind
  /-- Its requests. -/
  | getx
  /-- Its requests that were forwarded. -/
  | fwdFrom
  /-- The data for it. -/
  | data
  /-- The reads of the memory for it. -/
  | fetch
  /-- The requests forwarded to it. -/
  | fwdTo
  | putx
  | wbAck
  | wbNack
  /-- The writes to the memory upon its write-backs. -/
  | write

inductive MemKind
  | cacheFetch | dmaFetch | cacheWrite | dmaWrite

def unit (k : Nat) : Kind → LineMsg β → Nat
  | .getx, .getx i => if i = k then 1 else 0
  | .fwdFrom, .fwd _ j => if j = k then 1 else 0
  | .data, .data i _ => if i = k then 1 else 0
  | .fetch, .fetch (some i) | .fetch, .fetched (some i) _ => if i = k then 1 else 0
  | .fwdTo, .fwd i _ => if i = k then 1 else 0
  | .putx, .putx i _ => if i = k then 1 else 0
  | .wbAck, .wbAck i => if i = k then 1 else 0
  | .wbNack, .wbNack i => if i = k then 1 else 0
  | .write, .write (some i) _ | .write, .written (some i) => if i = k then 1 else 0
  | _, _ => 0

def memUnit : MemKind → LineMsg β → Nat
  | .cacheFetch, .fetch (some _) | .cacheFetch, .fetched (some _) _ => 1
  | .dmaFetch, .fetch none | .dmaFetch, .fetched none _ => 1
  | .cacheWrite, .write (some _) _ | .cacheWrite, .written (some _) => 1
  | .dmaWrite, .write none _ | .dmaWrite, .written none => 1
  | _, _ => 0

end LineMsg

end NocSwap.MIExample
