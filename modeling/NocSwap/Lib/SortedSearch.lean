import Mathlib.Data.List.Basic

/-!
# Sorted lists cut at a key

A search for the first entry beyond a key divides a sorted list in two.
-/

namespace NocSwap

variable {α : Type*} {R : α → α → Prop} {p : α → Bool}

theorem eq_false_of_mem_dropWhile (hp : ∀ a b, R a b → p b = true → p a = true) {l : List α}
    (hl : l.Pairwise R) {x : α} (hx : x ∈ l.dropWhile p) : p x = false := by
  induction l with
  | nil => cases hx
  | cons a l ih =>
    obtain ⟨ha, hl⟩ := List.pairwise_cons.mp hl
    cases hpa : p a with
    | true =>
      rw [List.dropWhile_cons_of_pos hpa] at hx
      exact ih hl hx
    | false =>
      rw [List.dropWhile_cons_of_neg (by simp [hpa])] at hx
      obtain rfl | hx := List.mem_cons.mp hx
      · exact hpa
      · by_contra hne
        rw [hp a x (ha x hx) (by simpa using hne)] at hpa
        cases hpa

theorem eq_or_rel_of_dropWhile {l l' : List α} {x y : α} (hl : l.Pairwise R)
    (h : l.dropWhile p = x :: l') (hy : y ∈ l.dropWhile p) : y = x ∨ R x y := by
  have hsub : (l.dropWhile p).Pairwise R := hl.sublist (List.dropWhile_sublist p)
  rw [h] at hsub hy
  obtain rfl | hy := List.mem_cons.mp hy
  · exact .inl rfl
  · exact .inr ((List.pairwise_cons.mp hsub).1 y hy)

end NocSwap
