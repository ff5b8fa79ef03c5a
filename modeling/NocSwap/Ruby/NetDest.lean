import Mathlib.Algebra.GroupWithZero.Nat
import Mathlib.Data.List.FinRange
import NocSwap.Ruby.MessageBuffer

/-!
# Sets of destinations

The class `NetDest`: a bit set for each machine type.
-/

namespace NocSwap.Ruby

structure Machines where
  numTypes : Nat
  count : Nat → Nat

namespace Machines

abbrev MachineID (M : Machines) : Type := (t : Fin M.numTypes) × Fin (M.count t)

def baseNumber (M : Machines) : Nat → Nat
  | 0 => 0
  | t + 1 => M.baseNumber t + M.count t

def nodeId (M : Machines) (id : M.MachineID) : Nat := M.baseNumber id.1 + id.2

def findMachine (M : Machines) (destID : Nat) : Option M.MachineID :=
  (List.finRange M.numTypes).findSome? fun (m : Fin M.numTypes) =>
    if h : M.baseNumber m ≤ destID ∧ destID < M.baseNumber (m + 1) then
      some ⟨m, destID - M.baseNumber m, Nat.sub_lt_left_of_lt_add h.1 h.2⟩
    else none

end Machines

@[ext]
structure NetDest (M : Machines) where
  bits : (t : Fin M.numTypes) → Fin (M.count t) → Bool

namespace NetDest

variable {M : Machines}

/-- `NetDest::clear`, and the constructor. -/
def clear (M : Machines) : NetDest M := ⟨fun _ _ => false⟩

def isElement (d : NetDest M) (id : M.MachineID) : Bool := d.bits id.1 id.2

def add (d : NetDest M) (id : M.MachineID) : NetDest M :=
  ⟨fun t j => if (⟨t, j⟩ : M.MachineID) = id then true else d.bits t j⟩

def removeNetDest (d e : NetDest M) : NetDest M := ⟨fun t j => d.bits t j && !e.bits t j⟩

def AND (d e : NetDest M) : NetDest M := ⟨fun t j => d.bits t j && e.bits t j⟩

/-- `NetDest::intersectionIsNotEmpty`: the sets of some type have a common element. -/
def intersectionIsNotEmpty (d e : NetDest M) : Bool :=
  (List.finRange M.numTypes).any fun (t : Fin M.numTypes) =>
    !(List.finRange (M.count t)).all fun j => !(d.bits t j && e.bits t j)

def count (d : NetDest M) : Nat :=
  ((List.finRange M.numTypes).map fun (t : Fin M.numTypes) =>
    ((List.finRange (M.count t)).filter (d.bits t)).length).sum

def getAllDest (d : NetDest M) : List Nat :=
  (List.finRange M.numTypes).flatMap fun (t : Fin M.numTypes) =>
    ((List.finRange (M.count t)).filter (d.bits t)).map fun j => M.nodeId ⟨t, j⟩

end NetDest

end NocSwap.Ruby
