import Mathlib.Data.List.Nodup
import Mathlib.Logic.Function.Basic

/-!
# Linked lists in a memory

A memory gives every cell the address of the next one.
-/

namespace NocSwap

open Function List

variable {α : Type*} {next : α → Option α}

def Linked (next : α → Option α) : Option α → List α → Prop
  | p, [] => p = none
  | p, a :: l => p = some a ∧ Linked next (next a) l

variable {p : Option α}

@[simp] theorem linked_nil : Linked next p [] ↔ p = none := Iff.rfl

variable {next' : α → Option α} {l : List α}

theorem Linked.congr (h : Linked next p l)
    (heq : ∀ a ∈ l, next' a = next a) : Linked next' p l := by
  induction l generalizing p with
  | nil => exact h
  | cons a l ih =>
    refine ⟨h.1, ?_⟩
    rw [heq a (mem_cons_self ..)]
    exact ih h.2 fun b hb => heq b (mem_cons_of_mem _ hb)

variable {l₁ l₂ : List α} {a : α}

theorem Linked.drop (h : Linked next p (l₁ ++ a :: l₂)) : Linked next (next a) l₂ := by
  induction l₁ generalizing p with
  | nil => exact h.2
  | cons b l₁ ih => exact ih h.2

theorem Linked.head_eq (h : Linked next p l) : p = l.head? := by
  cases l with
  | nil => exact h
  | cons a l => exact h.1

variable [DecidableEq α]

variable {v : Option α}

theorem Linked.update_of_notMem (h : Linked next p l)
    (ha : a ∉ l) : Linked (update next a v) p l := by
  refine h.congr fun b hb => ?_
  rw [update_of_ne]
  rintro rfl
  exact ha hb

/-- A write that puts the list `l₂'` behind the cell `a`. -/
theorem Linked.update_tail {l₂' : List α} (h : Linked next p (l₁ ++ a :: l₂))
    (heq : ∀ b ∈ l₁, next' b = next b) (h₁ : a ∉ l₁) (h₂ : a ∉ l₂') (hv : Linked next' v l₂') :
    Linked (update next' a v) p (l₁ ++ a :: l₂') := by
  induction l₁ generalizing p with
  | nil =>
    refine ⟨h.1, ?_⟩
    rw [update_self]
    exact hv.update_of_notMem h₂
  | cons b l₁ ih =>
    refine ⟨h.1, ?_⟩
    rw [update_of_ne (Ne.symm (ne_of_not_mem_cons h₁)), heq b (mem_cons_self ..)]
    exact ih h.2 (fun c hc => heq c (mem_cons_of_mem _ hc)) (not_mem_of_not_mem_cons h₁)

end NocSwap
