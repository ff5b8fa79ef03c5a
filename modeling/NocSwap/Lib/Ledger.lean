import Mathlib.Algebra.GroupWithZero.Nat
import Mathlib.Algebra.Order.BigOperators.Group.Finset
import Mathlib.Algebra.Order.BigOperators.Group.List

/-!
# Ledgers

A ledger distributes items over places.
-/

namespace NocSwap.Ledger

open Function List Finset

variable {β α : Type*}

def weight (w : β → α → Nat) (b : β) (l : List α) : Nat := (l.map (w b)).sum

@[simp] theorem weight_nil (w : β → α → Nat) (b : β) : weight w b [] = 0 := rfl

@[simp] theorem weight_cons (w : β → α → Nat) (b : β) (x : α) (l : List α) :
    weight w b (x :: l) = w b x + weight w b l := sum_cons

variable {l l' : List α}

theorem weight_perm {w : β → α → Nat} {b : β} (h : l.Perm l') :
    weight w b l = weight w b l' := (h.map (w b)).sum_eq

theorem weight_eq_zero {w : β → α → Nat} {b : β} : weight w b l = 0 ↔ ∀ x ∈ l, w b x = 0 := by
  induction l with
  | nil => simp
  | cons x l ih => simp [ih]

variable {x : α}

theorem le_weight {w : β → α → Nat} {b : β} (h : x ∈ l) : w b x ≤ weight w b l :=
  single_le_sum (fun _ _ => Nat.zero_le _) _ (mem_map_of_mem h)

def tally (S : Finset β) (w : β → α → Nat) (c : β → List α) : Nat := ∑ b ∈ S, weight w b (c b)

variable {S : Finset β} {w : β → α → Nat} {c : β → List α} {a b : β}

theorem tally_eq_zero : tally S w c = 0 ↔ ∀ b ∈ S, ∀ x ∈ c b, w b x = 0 := by
  unfold tally
  rw [Finset.sum_eq_zero_iff]
  exact forall₂_congr fun b _ => weight_eq_zero

theorem weight_le_tally (hb : b ∈ S) : weight w b (c b) ≤ tally S w c :=
  single_le_sum (f := fun b => weight w b (c b)) (fun _ _ => Nat.zero_le _) hb

theorem le_tally (hb : b ∈ S) (hx : x ∈ c b) : w b x ≤ tally S w c :=
  (le_weight hx).trans (weight_le_tally hb)

def countWeight (p : α → Prop) [DecidablePred p] (_ : β) (x : α) : Nat := if p x then 1 else 0

variable {p : α → Prop} [DecidablePred p]

theorem existsUnique_index (h : weight (countWeight p) b l = 1) :
    ∃! i : Nat, ∃ x, l[i]? = some x ∧ p x := by
  induction l with
  | nil => simp at h
  | cons x l ih =>
    rw [weight_cons, countWeight] at h
    by_cases hx : p x
    · rw [if_pos hx] at h
      have hrest : ∀ y ∈ l, ¬ p y := fun y hy hp => by
        have := weight_eq_zero.mp (Nat.add_left_cancel h) y hy
        simp [countWeight, hp] at this
      refine ⟨0, ⟨x, rfl, hx⟩, ?_⟩
      rintro (_ | i) ⟨y, hy, hp⟩
      · rfl
      · exact absurd hp (hrest y (mem_of_getElem? hy))
    · rw [if_neg hx, Nat.zero_add] at h
      obtain ⟨i, ⟨y, hy, hp⟩, huniq⟩ := ih h
      refine ⟨i + 1, ⟨y, hy, hp⟩, ?_⟩
      rintro (_ | j) ⟨z, hz, hpz⟩
      · cases hz
        exact absurd hpz hx
      · rw [huniq j ⟨z, hz, hpz⟩]

variable [DecidableEq β]

theorem tally_update (hb : b ∈ S) (l : List α) :
    tally S w (update c b l) + weight w b (c b) = tally S w c + weight w b l := by
  unfold tally
  rw [← add_sum_erase S _ hb, ← add_sum_erase S (fun b => weight w b (c b)) hb]
  have hrest : ∑ x ∈ S.erase b, weight w x (update c b l x) =
      ∑ x ∈ S.erase b, weight w x (c x) :=
    sum_congr rfl fun x hx => by
      rw [update_of_ne (ne_of_mem_erase hx)]
  rw [hrest, update_self]
  omega

theorem tally_put (hb : b ∈ S) (hl : l.Perm (x :: c b)) :
    tally S w (update c b l) = tally S w c + w b x := by
  have h := tally_update (w := w) (c := c) hb l
  rw [weight_perm hl, weight_cons] at h
  omega

theorem tally_take (hb : b ∈ S) (hl : (c b).Perm (x :: l)) :
    tally S w (update c b l) + w b x = tally S w c := by
  have h := tally_update (w := w) (c := c) hb l
  rw [weight_perm hl, weight_cons] at h
  omega

theorem tally_move {y : α} (ha : a ∈ S) (hb : b ∈ S) (hab : a ≠ b)
    (hl : (c a).Perm (x :: l)) (hl' : l'.Perm (y :: c b)) :
    tally S w (update (update c a l) b l') + w a x = tally S w c + w b y := by
  have hput := tally_put (w := w) (c := update c a l) (x := y) (l := l') hb
    (by rwa [update_of_ne hab.symm])
  have htake := tally_take (w := w) ha hl
  omega

theorem tally_exchange {y : α} (x' y' : α) (ha : a ∈ S) (hb : b ∈ S)
    (hab : a ≠ b) (hl : c a = x :: l) (hl' : c b = y :: l') :
    tally S w (update (update c a (y' :: l)) b (x' :: l')) + w a x + w b y =
      tally S w c + w a y' + w b x' := by
  have h1 := tally_update (w := w) (c := c) ha (y' :: l)
  have h2 := tally_update (w := w) (c := update c a (y' :: l)) hb (x' :: l')
  rw [update_of_ne hab.symm, hl', weight_cons, weight_cons] at h2
  rw [hl, weight_cons, weight_cons] at h1
  omega

theorem add_le_tally (ha : a ∈ S) (hb : b ∈ S) (hab : a ≠ b) :
    weight w a (c a) + weight w b (c b) ≤ tally S w c := by
  unfold tally
  rw [← add_sum_erase S _ ha]
  exact Nat.add_le_add_left (single_le_sum (f := fun b => weight w b (c b))
    (fun _ _ => Nat.zero_le _) (Finset.mem_erase.mpr ⟨hab.symm, hb⟩)) _

theorem existsUnique_position (h : tally S (countWeight p) c = 1) :
    ∃! x : β × Nat, x.1 ∈ S ∧ ∃ y, (c x.1)[x.2]? = some y ∧ p y := by
  have hzero : ∀ {b i y}, (c b)[i]? = some y → p y → weight (countWeight p) b (c b) ≠ 0 :=
    fun {b i y} hy hp h0 => by
      have := weight_eq_zero.mp h0 y (mem_of_getElem? hy)
      simp [countWeight, hp] at this
  obtain ⟨a, ha, hne⟩ : ∃ a ∈ S, weight (countWeight p) a (c a) ≠ 0 := by
    by_contra hall
    push Not at hall
    have : tally S (countWeight p) c = 0 := sum_eq_zero hall
    omega
  have hle := weight_le_tally (w := countWeight p) (c := c) ha
  obtain ⟨i, ⟨y, hy, hp⟩, huniq⟩ := existsUnique_index (p := p) (b := a) (l := c a) (by omega)
  refine ⟨(a, i), ⟨ha, y, hy, hp⟩, ?_⟩
  rintro ⟨b, j⟩ ⟨hb, z, hz, hpz⟩
  obtain rfl : b = a := by
    by_contra hba
    have hsum := add_le_tally (w := countWeight p) (c := c) ha hb (Ne.symm hba)
    have := hzero hz hpz
    omega
  rw [huniq j ⟨z, hz, hpz⟩]

end NocSwap.Ledger
