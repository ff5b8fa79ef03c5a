import Mathlib.Data.Fintype.Pi

/-!
# Data blocks

`DataBlock` of `mem/ruby/common`: the bytes of one line of `B` bytes.
-/

namespace NocSwap.Ruby

abbrev DataBlock (B : Nat) : Type := Fin B → UInt8

namespace DataBlock

variable {B : Nat}

/-- `DataBlock::clear`: a new block holds zeros. -/
def clear : DataBlock B := fun _ => 0

/-- `DataBlock::setData`: the bytes of `data` from `offset` on. -/
def setData (data : List UInt8) (offset : Nat) (b : DataBlock B) : DataBlock B := fun j =>
  if offset ≤ j.val ∧ j.val < offset + data.length then data.getD (j.val - offset) 0 else b j

/-- `DataBlock::getData`: `len` bytes from `offset` on. -/
def getData (offset len : Nat) (b : DataBlock B) : List UInt8 :=
  (List.range len).map fun k => if h : offset + k < B then b ⟨offset + k, h⟩ else 0

@[simp] theorem setData_getData (b b' : DataBlock B) : setData (b.getData 0 B) 0 b' = b := by
  funext j
  unfold setData getData
  have hj := j.isLt
  simp [hj]

end DataBlock

end NocSwap.Ruby
