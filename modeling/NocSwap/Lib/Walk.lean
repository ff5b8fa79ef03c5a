import Mathlib.Algebra.Order.BigOperators.Group.List
import Mathlib.Algebra.Order.Group.Nat

/-!
# Weighted walks

`Walk link w i j n` says that some walk from `i` to `j` has the total weight `n`.
-/

namespace NocSwap

variable {V : Type} {link : V → V → Prop} {w : V → V → Nat}

inductive Walk (link : V → V → Prop) (w : V → V → Nat) : V → V → Nat → Prop
  | nil (i : V) : Walk link w i i 0
  | cons {i k j : V} {n : Nat} (step : link i k) (rest : Walk link w k j n) :
      Walk link w i j (w i k + n)

namespace Walk

theorem append {i k j : V} {m n : Nat} (h : Walk link w i k m) (h' : Walk link w k j n) :
    Walk link w i j (m + n) := by
  induction h with
  | nil i => rwa [Nat.zero_add]
  | cons hstep _ ih =>
    rw [Nat.add_assoc]
    exact .cons hstep (ih h')

theorem single {i j : V} (h : link i j) : Walk link w i j (w i j) := .cons h (.nil j)

theorem potential_le {φ : V → Nat} (hφ : ∀ i k, link i k → φ i ≤ w i k + φ k) {i j : V} {n : Nat}
    (h : Walk link w i j n) : φ i ≤ n + φ j := by
  induction h with
  | nil i => rw [Nat.zero_add]
  | @cons i k j n hstep _ ih =>
    calc φ i ≤ w i k + φ k := hφ i k hstep
      _ ≤ w i k + (n + φ j) := Nat.add_le_add_left ih _
      _ = w i k + n + φ j := (Nat.add_assoc ..).symm

theorem exists_first {i j : V} {n : Nat} (h : Walk link w i j n) (hne : i ≠ j) :
    ∃ k m, link i k ∧ Walk link w k j m ∧ n = w i k + m := by
  cases h with
  | nil => exact absurd rfl hne
  | cons hstep hrest => exact ⟨_, _, hstep, hrest, rfl⟩

end Walk

/-! ### Paths as lists of nodes -/

def pathLinks (i : V) : List V → V → List (V × V)
  | [], j => [(i, j)]
  | k :: ks, j => (i, k) :: pathLinks k ks j

theorem pathLinks_append (k j : V) (ls : List V) (ks : List V) :
    ∀ i, pathLinks i (ks ++ k :: ls) j = pathLinks i ks k ++ pathLinks k ls j := by
  induction ks with
  | nil => exact fun i => rfl
  | cons a ks ih => exact fun i => congrArg ((i, a) :: ·) (ih a)

section Sum

variable {M : Type} [AddMonoid M]

def pathSum (q : V → V → M) (i : V) (ks : List V) (j : V) : M :=
  ((pathLinks i ks j).map fun l => q l.1 l.2).sum

@[simp] theorem pathSum_nil (q : V → V → M) (i j : V) : pathSum q i [] j = q i j := by
  simp [pathSum, pathLinks]

@[simp] theorem pathSum_cons (q : V → V → M) (i k : V) (ks : List V) (j : V) :
    pathSum q i (k :: ks) j = q i k + pathSum q k ks j := by
  simp [pathSum, pathLinks]

theorem pathSum_append (q : V → V → M) (i k j : V) (ks ls : List V) :
    pathSum q i (ks ++ k :: ls) j = pathSum q i ks k + pathSum q k ls j := by
  rw [pathSum, pathLinks_append, List.map_append, List.sum_append]
  rfl

end Sum

theorem le_pathSum {i j : V} {ks : List V} {l : V × V} (h : l ∈ pathLinks i ks j) :
    w l.1 l.2 ≤ pathSum w i ks j :=
  List.single_le_sum (fun _ _ => Nat.zero_le _) _ (List.mem_map_of_mem h)

end NocSwap
