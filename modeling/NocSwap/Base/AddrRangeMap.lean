import NocSwap.Base.AddrRange

/-!
# Maps of address ranges

`AddrRangeMap` of `base/addr_range_map.hh`.
-/

namespace NocSwap.Base

abbrev RangeEntry (V : Type) := AddrRange × V

structure AddrRangeMap (V : Type) where
  tree : List (RangeEntry V) := []
  cache : List (RangeEntry V) := []

namespace AddrRangeMap

variable {V : Type} (maxCacheSize : Nat) (m : AddrRangeMap V)

def before (r : AddrRange) : List (RangeEntry V) := m.tree.takeWhile fun x => !r.lt x.1

def upperBound (r : AddrRange) : List (RangeEntry V) := m.tree.dropWhile fun x => !r.lt x.1

def addNewEntryToCache (x : RangeEntry V) : AddrRangeMap V :=
  if maxCacheSize ≠ 0 then
    if maxCacheSize ≤ m.cache.length then
      { m with cache :=
          if 1 < maxCacheSize then x :: m.cache.dropLast else m.cache.dropLast ++ [x] }
    else { m with cache := x :: m.cache }
  else m

/-- The search of `find` in the cache behind `done`: the entry found and the cache with it in front.
-/
def findInCache (cond : AddrRange → Except AddrRangeFault Bool) (done : List (RangeEntry V)) :
    List (RangeEntry V) → Except AddrRangeFault (Option (RangeEntry V × List (RangeEntry V)))
  | [] => return none
  | x :: rest => do
    if ← cond x.1 then return some (x, x :: (done.reverse ++ rest))
    else findInCache cond (x :: done) rest

/-- The loop of `find` that goes backwards while an entry merges with the one that follows it. -/
def walkBack (cond : AddrRange → Except AddrRangeFault Bool) :
    List (RangeEntry V) → Except AddrRangeFault (Option (RangeEntry V))
  | [] => return none
  | x :: rest => do
    if ← cond x.1 then return some x
    else
      match rest with
      | [] => return none
      | y :: _ => if y.1.mergesWith x.1 then walkBack cond rest else return none

def findInTree (r : AddrRange) (cond : AddrRange → Except AddrRangeFault Bool) :
    Except AddrRangeFault (Option (RangeEntry V)) :=
  match m.upperBound r with
  | [] => walkBack cond (m.before r).reverse
  | next :: _ => do
    if ← cond next.1 then return some next
    else walkBack cond (m.before r).reverse

def find (r : AddrRange) (cond : AddrRange → Except AddrRangeFault Bool) :
    Except AddrRangeFault (Option (RangeEntry V) × AddrRangeMap V) := do
  match ← findInCache cond [] m.cache with
  | some (x, cache) => return (some x, { m with cache := cache })
  | none =>
    match ← m.findInTree r cond with
    | some x => return (some x, m.addNewEntryToCache maxCacheSize x)
    | none => return (none, m)

def contains (a : Addr) : Except AddrRangeFault (Option (RangeEntry V) × AddrRangeMap V) :=
  m.find maxCacheSize (.rangeSize a 1) fun q => (AddrRange.rangeSize a 1).isSubset q

def intersects (r : AddrRange) : Except AddrRangeFault (Option (RangeEntry V) × AddrRangeMap V) :=
  m.find maxCacheSize r fun q => r.intersects q

/-- `std::map::insert`: an entry not ordered with the new one stays. -/
def treeInsert (x : RangeEntry V) : RangeEntry V × AddrRangeMap V :=
  match (m.before x.1).getLast? with
  | some y =>
    if y.1.lt x.1 then (x, { m with tree := m.before x.1 ++ x :: m.upperBound x.1 }) else (y, m)
  | none => (x, { m with tree := x :: m.upperBound x.1 })

def insert (r : AddrRange) (d : V) :
    Except AddrRangeFault (Option (RangeEntry V) × AddrRangeMap V) := do
  match ← m.intersects maxCacheSize r with
  | (some _, m) => return (none, m)
  | (none, m) =>
    let (x, m) := m.treeInsert (r, d)
    return (some x, m)

/-- `cache.remove`, an iterator being known by its range. -/
def removeFromCache (x : RangeEntry V) (cache : List (RangeEntry V)) : List (RangeEntry V) :=
  cache.filter fun y => decide (y.1 ≠ x.1)

/-- `erase` of the entry at position `p`. -/
def erase (p : Nat) : AddrRangeMap V :=
  match m.tree[p]? with
  | some x => ⟨m.tree.eraseIdx p, removeFromCache x m.cache⟩
  | none => m

/-- `erase(p, q)`: every pass of its loop removes the iterator `p` from the cache. -/
def eraseRange (p q : Nat) : AddrRangeMap V :=
  let range := (m.tree.take q).drop p
  let pass (cache : List (RangeEntry V)) (_ : RangeEntry V) : List (RangeEntry V) :=
    match range with
    | [] => cache
    | x :: _ => removeFromCache x cache
  ⟨m.tree.take p ++ m.tree.drop q, range.foldl pass m.cache⟩

def clear : AddrRangeMap V := ⟨[], []⟩

/-! ### Sequences of calls -/

inductive Op (V : Type)
  | contains (a : Addr)
  | insert (r : AddrRange) (d : V)

def exec : Op V → Except AddrRangeFault (AddrRangeMap V)
  | .contains a => do
    let (_, m) ← m.contains maxCacheSize a
    return m
  | .insert r d => do
    let (_, m) ← m.insert maxCacheSize r d
    return m

def run (ops : List (Op V)) (m : AddrRangeMap V) : Except AddrRangeFault (AddrRangeMap V) :=
  ops.foldlM (fun m op => m.exec maxCacheSize op) m

/-- The calls on a map of plain ranges. -/
inductive PlainOp (V : Type)
  | insert (start stop : Addr) (d : V)
  | erase (p : Nat)
  | eraseRange (p q : Nat)
  | clear
  | contains (a : Addr)
  | intersects (start stop : Addr)

def call : PlainOp V → Except AddrRangeFault (AddrRangeMap V)
  | .insert s e d => do
    let (_, m) ← m.insert maxCacheSize (.plain s e) d
    return m
  | .erase p => return m.erase p
  | .eraseRange p q => return m.eraseRange p q
  | .clear => return clear
  | .contains a => do
    let (_, m) ← m.contains maxCacheSize a
    return m
  | .intersects s e => do
    let (_, m) ← m.intersects maxCacheSize (.plain s e)
    return m

def calls (ops : List (PlainOp V)) : Except AddrRangeFault (AddrRangeMap V) :=
  ops.foldlM (fun m op => m.call maxCacheSize op) {}

end AddrRangeMap

end NocSwap.Base
