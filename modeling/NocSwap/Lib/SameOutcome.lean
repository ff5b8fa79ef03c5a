import NocSwap.Lib.Outcome

/-!
# Two fallible programs with the same outcome

`SameOutcome R x y`: `x` and `y` fail with the same error or return values that `R` relates.
-/

namespace NocSwap

open List

universe u v

variable {ε : Type v} {α β α' β' : Type u}

def SameOutcome (R : α → β → Prop) (x : Except ε α) (y : Except ε β) : Prop :=
  match x, y with
  | .ok a, .ok b => R a b
  | .error e, .error e' => e = e'
  | _, _ => False

variable {R R' : α → β → Prop} {S : α' → β' → Prop} {x : Except ε α} {y : Except ε β}

theorem SameOutcome.mono (h : SameOutcome R x y) (hR : ∀ a b, R a b → R' a b) :
    SameOutcome R' x y := by
  cases x with
  | ok a =>
    cases y with
    | ok b => exact hR a b h
    | error e => exact h
  | error e =>
    cases y with
    | ok b => exact h
    | error e' => exact h

theorem SameOutcome.of_outcome {p : α → Prop} {q : ε → Prop} (h : Outcome x p q) :
    SameOutcome (fun a b => b = a ∧ p a) x x := by
  cases x with
  | ok a => exact ⟨rfl, h⟩
  | error e => exact rfl

theorem SameOutcome.bind {f : α → Except ε α'} {g : β → Except ε β'} (h : SameOutcome R x y)
    (hfg : ∀ a b, R a b → SameOutcome S (f a) (g b)) : SameOutcome S (x >>= f) (y >>= g) := by
  cases x with
  | ok a =>
    cases y with
    | ok b => exact hfg a b h
    | error e => exact h.elim
  | error e =>
    cases y with
    | ok b => exact h.elim
    | error e' => exact h

theorem SameOutcome.require_bind {α β : Type} {R : α → β → Prop} {e : ε} {p p' : Prop}
    [Decidable p] [Decidable p'] {f : Unit → Except ε α} {g : Unit → Except ε β} (hp : p ↔ p')
    (h : p → SameOutcome R (f ()) (g ())) :
    SameOutcome R (require e p >>= f) (require e p' >>= g) := by
  unfold require
  by_cases hpt : p
  · rw [if_pos hpt, if_pos (hp.mp hpt)]
    exact h hpt
  · rw [if_neg hpt, if_neg fun h' => hpt (hp.mpr h')]
    exact rfl

theorem SameOutcome.ite {p p' : Prop} [Decidable p] [Decidable p'] {x' : Except ε α}
    {y' : Except ε β} (hp : p ↔ p') (h : p → SameOutcome R x y) (h' : ¬ p → SameOutcome R x' y') :
    SameOutcome R (if p then x else x') (if p' then y else y') := by
  by_cases hpt : p
  · rw [if_pos hpt, if_pos (hp.mp hpt)]
    exact h hpt
  · rw [if_neg hpt, if_neg fun h'' => hpt (hp.mpr h'')]
    exact h' hpt

theorem SameOutcome.foldlM {γ : Type*} {f : α → γ → Except ε α} {g : β → γ → Except ε β}
    (l : List γ) (hfg : ∀ c ∈ l, ∀ a b, R a b → SameOutcome R (f a c) (g b c)) :
    ∀ a b, R a b → SameOutcome R (l.foldlM f a) (l.foldlM g b) := by
  induction l with
  | nil => exact fun a b h => h
  | cons c l ih =>
    intro a b h
    rw [foldlM_cons, foldlM_cons]
    have hstep := hfg c (mem_cons_self ..) a b h
    exact hstep.bind (ih fun c hc => hfg c (mem_cons_of_mem _ hc))

theorem SameOutcome.foldlM_range {R : Nat → α → β → Prop} {f : α → Nat → Except ε α}
    {g : β → Nat → Except ε β} (n : Nat)
    (hfg : ∀ k < n, ∀ a b, R k a b → SameOutcome (R (k + 1)) (f a k) (g b k)) (a : α) (b : β)
    (h : R 0 a b) : SameOutcome (R n) ((List.range n).foldlM f a) ((List.range n).foldlM g b) := by
  induction n with
  | zero => exact h
  | succ n ih =>
    rw [range_succ, foldlM_append, foldlM_append]
    refine (ih fun k hk => hfg k (Nat.lt_succ_of_lt hk)).bind fun a' b' h' => ?_
    rw [foldlM_cons, foldlM_cons]
    refine (hfg n (Nat.lt_succ_self n) a' b' h').bind fun _ _ h'' => ?_
    exact h''

theorem SameOutcome.of_ok {a : α} (h : SameOutcome R x y) (hx : x = .ok a) :
    ∃ b, y = .ok b ∧ R a b := by
  subst hx
  cases y with
  | ok b => exact ⟨b, rfl, h⟩
  | error e => exact h.elim

theorem SameOutcome.exists_ok {b : β} (h : SameOutcome R x y) (hy : y = .ok b) :
    ∃ a, x = .ok a ∧ R a b := by
  subst hy
  cases x with
  | ok a => exact ⟨a, rfl, h⟩
  | error e => exact h.elim

theorem SameOutcome.of_error {e : ε} (h : SameOutcome R x y) (hx : x = .error e) :
    y = .error e := by
  subst hx
  cases y with
  | ok b => exact h.elim
  | error e' => exact congrArg _ (Eq.symm h)

theorem SameOutcome.eq_map {f : α → β} (h : SameOutcome (fun a b => b = f a) x y) :
    y = x.map f := by
  cases hx : x with
  | ok a =>
    obtain ⟨b, rfl, rfl⟩ := h.of_ok hx
    rfl
  | error e => exact h.of_error hx

end NocSwap
