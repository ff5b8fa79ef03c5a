import Mathlib.Data.List.Basic

/-!
# Histories

A history is a list to which entries are added at the end.
-/

namespace NocSwap.History

open List

variable {α : Type} {p : List α → α → Prop}

def Each (p : List α → α → Prop) (h : List α) : Prop :=
  ∀ before e after, h = before ++ e :: after → p before e

theorem each_nil : Each p [] := by
  intro before e after h
  simp at h

theorem each_append_singleton {h : List α} {e : α} : Each p (h ++ [e]) ↔ Each p h ∧ p h e := by
  constructor
  · intro hp
    constructor
    · intro before e' after heq
      apply hp before e' (after ++ [e])
      simp [heq]
    · exact hp h e [] rfl
  · rintro ⟨hp, he⟩ before e' after heq
    rcases eq_nil_or_concat' after with rfl | ⟨after, e'', rfl⟩
    · obtain ⟨hb, he'⟩ := append_inj' heq rfl
      cases List.singleton_inj.mp he'
      rw [← hb]
      exact he
    · rw [← cons_append, ← append_assoc] at heq
      exact hp before e' after (append_inj' heq rfl).1

end NocSwap.History
