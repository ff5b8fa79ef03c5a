import Mathlib.Logic.Function.Basic

/-!
# Assignment to one entry of a table

`set2`, the two-argument form of `Function.update`.
-/

namespace NocSwap

variable {α β γ : Type*} [DecidableEq α] [DecidableEq β]

def set2 (g : α → β → γ) (a : α) (b : β) (x : γ) : α → β → γ :=
  fun a' b' => if a' = a ∧ b' = b then x else g a' b'

@[simp] theorem set2_same (g : α → β → γ) (a : α) (b : β) (x : γ) : set2 g a b x a b = x := by
  simp [set2]

theorem set2_of_ne {g : α → β → γ} {a a' : α} {b b' : β} {x : γ} (h : ¬ (a' = a ∧ b' = b)) :
    set2 g a b x a' b' = g a' b' := if_neg h

theorem set2_apply (g : α → β → γ) (a a' : α) (b b' : β) (x : γ) :
    set2 g a b x a' b' = if a' = a ∧ b' = b then x else g a' b' := rfl

@[simp] theorem set2_idem (g : α → β → γ) (a : α) (b : β) (x y : γ) :
    set2 (set2 g a b x) a b y = set2 g a b y := by
  funext a' b'
  simp only [set2_apply]
  by_cases h : a' = a ∧ b' = b <;> simp [h]

end NocSwap
