import Mathlib.Data.List.Basic

/-!
# Outcomes of fallible programs

A fallible program is a value of `Except ε α`.
-/

namespace NocSwap

open List

universe u v

variable {ε : Type v} {α β : Type u}

def Outcome (x : Except ε α) (Q : α → Prop) (E : ε → Prop) : Prop :=
  match x with
  | .ok a => Q a
  | .error e => E e

def require (e : ε) (b : Prop) [Decidable b] : Except ε Unit :=
  if b then .ok () else .error e

def orFail (e : ε) : Option α → Except ε α
  | some a => .ok a
  | none => .error e

section Rules

variable {x : Except ε α} {Q Q' : α → Prop} {E E' : ε → Prop}

@[simp] theorem outcome_ok (a : α) : Outcome (.ok a : Except ε α) Q E ↔ Q a := Iff.rfl

@[simp] theorem outcome_pure (a : α) : Outcome (pure a : Except ε α) Q E ↔ Q a := Iff.rfl

@[simp] theorem outcome_error (e : ε) : Outcome (.error e : Except ε α) Q E ↔ E e := Iff.rfl

@[simp] theorem outcome_bind (f : α → Except ε β) (R : β → Prop) :
    Outcome (x >>= f) R E ↔ Outcome x (fun a => Outcome (f a) R E) E := by
  cases x <;> rfl

@[simp] theorem outcome_map (f : α → β) (R : β → Prop) :
    Outcome (f <$> x) R E ↔ Outcome x (fun a => R (f a)) E := by
  cases x <;> rfl

@[simp] theorem outcome_ite (c : Prop) [Decidable c] (y : Except ε α) :
    Outcome (if c then x else y) Q E ↔ (c → Outcome x Q E) ∧ (¬ c → Outcome y Q E) := by
  by_cases h : c <;> simp [h]

@[simp] theorem outcome_require (e : ε) (b : Prop) [Decidable b] (R : Unit → Prop) :
    Outcome (require e b) R E ↔ (b → R ()) ∧ (¬ b → E e) := by
  unfold require
  by_cases h : b <;> simp [h]

@[simp] theorem outcome_orFail (e : ε) (o : Option α) :
    Outcome (orFail e o) Q E ↔ (∀ a, o = some a → Q a) ∧ (o = none → E e) := by
  cases o <;> simp [orFail]

/-- The rules for the steps of a `do` block. -/
theorem outcome_do : (∀ {ε α β : Type} (x : Except ε α) (f : α → Except ε β) R E,
      Outcome (x >>= f) R E ↔ Outcome x (fun a => Outcome (f a) R E) E) ∧
    (∀ {ε α : Type} (a : α) Q (E : ε → Prop), Outcome (pure a) Q E ↔ Q a) ∧
    (∀ {ε : Type} (e : ε) b [Decidable b] R E,
      Outcome (require e b) R E ↔ (b → R ()) ∧ (¬ b → E e)) ∧
    (∀ {ε α : Type} (e : ε) (o : Option α) Q E,
      Outcome (orFail e o) Q E ↔ (∀ a, o = some a → Q a) ∧ (o = none → E e)) ∧
    ∀ p : Prop, ((p → True) ↔ True) ∧ (p ∧ True ↔ p) ∧ (True ∧ p ↔ p) := by
  simp

section

variable (h : Outcome x Q E) (hQ : ∀ a, Q a → Q' a)
include h hQ

theorem Outcome.mono (hE : ∀ e, E e → E' e) : Outcome x Q' E' := by
  cases x with
  | ok a => exact hQ a h
  | error e => exact hE e h

theorem Outcome.imp : Outcome x Q' E :=
  h.mono hQ fun _ he => he

theorem Outcome.onOk : Outcome x Q' fun _ => True :=
  h.mono hQ fun _ _ => trivial

end

theorem Outcome.of_ok {a : α} (h : Outcome x Q E) (hx : x = .ok a) : Q a := by
  subst hx; exact h

theorem Outcome.exists_ok (h : Outcome x Q fun _ => False) : ∃ a, x = .ok a ∧ Q a := by
  cases x with
  | ok a => exact ⟨a, rfl, h⟩
  | error e => exact h.elim

theorem Outcome.of_error {e : ε} (h : Outcome x Q E) (hx : x = .error e) : E e := by
  subst hx; exact h

theorem Outcome.intro (hQ : ∀ a, x = .ok a → Q a) (hE : ∀ e, x = .error e → E e) :
    Outcome x Q E := by
  cases x with
  | ok a => exact hQ a rfl
  | error e => exact hE e rfl

theorem Outcome.introOk (hQ : ∀ a, x = .ok a → Q a) : Outcome x Q fun _ => True :=
  .intro hQ fun _ _ => trivial

theorem Outcome.and (h : Outcome x Q E) (h' : Outcome x Q' E') :
    Outcome x (fun a => Q a ∧ Q' a) (fun e => E e ∧ E' e) := by
  cases x with
  | ok a => exact ⟨h, h'⟩
  | error e => exact ⟨h, h'⟩

theorem Outcome.foldlM {γ : Type u} {I : γ → Prop} {f : γ → α → Except ε γ} (l : List α)
    (hf : ∀ a ∈ l, ∀ s, I s → Outcome (f s a) I E) : ∀ s, I s → Outcome (l.foldlM f s) I E := by
  induction l with
  | nil => intro s hs; exact hs
  | cons a l ih =>
    intro s hs
    rw [foldlM_cons, outcome_bind]
    exact (hf a (mem_cons_self ..) s hs).imp
      fun s' hs' => ih (fun b hb => hf b (mem_cons_of_mem _ hb)) s' hs'

theorem Outcome.foldlM_each {γ : Type u} {κ δ : Type*} [DecidableEq κ] {I : γ → Prop}
    {f : γ → α → Except ε γ} (get : γ → κ → δ) (key : α → κ) (g : δ → δ) (l : List α)
    (hl : (l.map key).Nodup)
    (hf : ∀ a ∈ l, ∀ s, I s → Outcome (f s a) (fun s' => I s' ∧
      get s' (key a) = g (get s (key a)) ∧ ∀ k, k ≠ key a → get s' k = get s k) E) :
    ∀ s, I s → Outcome (l.foldlM f s) (fun s' => I s' ∧
      ∀ k, get s' k = if k ∈ l.map key then g (get s k) else get s k) E := by
  induction l with
  | nil => exact fun s hs => ⟨hs, fun k => rfl⟩
  | cons a l ih =>
    intro s hs
    obtain ⟨ha, hl⟩ := nodup_cons.mp hl
    rw [foldlM_cons, outcome_bind]
    refine (hf a (mem_cons_self ..) s hs).imp fun s₁ ⟨h₁, hself, hother⟩ => ?_
    refine (ih hl (fun b hb => hf b (mem_cons_of_mem _ hb)) s₁ h₁).imp
      fun s₂ ⟨h₂, hrest⟩ => ⟨h₂, fun k => ?_⟩
    rw [hrest k, map_cons]
    by_cases hk : k = key a
    · rw [hk, if_neg ha, if_pos (mem_cons_self ..), hself]
    · rw [hother k hk]
      simp [hk]

theorem Outcome.foldlM_range {γ : Type} {I : Nat → γ → Prop} {E : ε → Prop}
    {f : γ → Nat → Except ε γ} (n : Nat) (hf : ∀ k < n, ∀ s, I k s → Outcome (f s k) (I (k + 1)) E)
    (s : γ) (hs : I 0 s) : Outcome ((List.range n).foldlM f s) (I n) E := by
  induction n with
  | zero => exact hs
  | succ n ih =>
    rw [range_succ, foldlM_append, outcome_bind]
    refine (ih fun k hk => hf k (Nat.lt_succ_of_lt hk)).imp fun s' hs' => ?_
    rw [foldlM_cons, outcome_bind]
    exact (hf n (Nat.lt_succ_self n) s' hs').imp fun _ h => h

theorem Outcome.foldlM_zipIdx {α γ : Type} {I : Nat → γ → Prop} {E : ε → Prop}
    {f : γ → α × Nat → Except ε γ} (l : List α) (k : Nat)
    (hf : ∀ i a, l[i]? = some a → ∀ s, I (k + i) s → Outcome (f s (a, k + i)) (I (k + i + 1)) E)
    (s : γ) (hs : I k s) : Outcome ((l.zipIdx k).foldlM f s) (I (k + l.length)) E := by
  induction l generalizing k s with
  | nil => exact hs
  | cons a l ih =>
    rw [zipIdx_cons, foldlM_cons, outcome_bind]
    refine (hf 0 a rfl s hs).imp fun s' hs' => ?_
    have hrest := ih (k + 1) (fun i b hb s hs => ?_) s' hs'
    · rwa [length_cons, Nat.add_comm l.length, ← Nat.add_assoc]
    · have := hf (i + 1) b hb s
      rw [Nat.add_comm i 1, ← Nat.add_assoc] at this
      exact this hs

/-- The rule for a search: it finds out whether `T` holds of an element of the list. -/
theorem Outcome.anyM {α : Type v} {T : α → Prop} {f : α → Except ε Bool} {l : List α}
    {E : ε → Prop} (hf : ∀ a ∈ l, Outcome (f a) (fun b => b = true ↔ T a) E) :
    Outcome (l.anyM f) (fun b => b = true ↔ ∃ a ∈ l, T a) E := by
  induction l with
  | nil => simp [List.anyM]
  | cons a l ih =>
    rw [List.anyM, outcome_bind]
    refine (hf a (mem_cons_self ..)).imp fun b hb => ?_
    cases b with
    | true => simpa using .inl (hb.mp rfl)
    | false =>
      have ha : ¬ T a := fun h => Bool.false_ne_true (hb.mpr h)
      refine (ih fun x hx => hf x (mem_cons_of_mem _ hx)).imp fun b' hb' => ?_
      simpa [ha] using hb'

end Rules

theorem eq_ok_of_toOption {x : Except ε α} {a : α} (h : x.toOption = some a) : x = .ok a := by
  cases x with
  | ok b => exact congrArg _ (Option.some.inj h)
  | error e => cases h

theorem exists_ok_of_toOption {x : Except ε α} {p : α → Prop} (f : α → β) (y : β)
    (h : x.toOption.map f = some y) (hp : ∀ a, x = .ok a → f a = y → p a) :
    ∃ a, x = .ok a ∧ p a := by
  obtain ⟨a, ha, hy⟩ := Option.map_eq_some_iff.mp h
  exact ⟨a, eq_ok_of_toOption ha, hp a (eq_ok_of_toOption ha) hy⟩

def error? : Except ε α → Option ε
  | .ok _ => none
  | .error e => some e

theorem eq_error_of_error? {x : Except ε α} {e : ε} (h : error? x = some e) : x = .error e := by
  cases x with
  | ok a => cases h
  | error e' => exact congrArg _ (Option.some.inj h)

/-!
 ### What a program leaves alone

`Yields π b x` says that whatever `x` returns has `b` as its part `π`.
-/

section Yields

variable {γ : Type u} {δ κ : Type*} {π : α → δ} {ρ : γ → κ} {b b' : δ} {c : κ} {x y : Except ε α}
  {f : α → Except ε γ}

/-- Every value that `x` returns has part `b`. -/
structure Yields (π : α → δ) (b : δ) (x : Except ε α) : Prop where
  of_ok : ∀ a, x = .ok a → π a = b

theorem Yields.ok {a : α} (h : π a = b) : Yields π b (.ok a : Except ε α) :=
  ⟨fun _ ha => Except.ok.inj ha ▸ h⟩

theorem Yields.pure {a : α} (h : π a = b) : Yields π b (Pure.pure a : Except ε α) := .ok h

theorem Yields.error (e : ε) : Yields π b (.error e) := ⟨fun _ h => nomatch h⟩

theorem Yields.of_eq (hx : Yields π b' x) (h : b' = b) : Yields π b x := h ▸ hx

theorem Yields.bind (hx : Yields π b x) (hf : ∀ a, π a = b → Yields ρ c (f a)) :
    Yields ρ c (x >>= f) := by
  cases x with
  | ok a => exact hf a (hx.of_ok a rfl)
  | error e => exact .error e

theorem Yields.of_bind (hf : ∀ a, Yields ρ c (f a)) : Yields ρ c (x >>= f) := by
  cases x with
  | ok a => exact hf a
  | error e => exact .error e

theorem Yields.ite {p : Prop} [Decidable p] (hx : p → Yields π b x) (hy : ¬ p → Yields π b y) :
    Yields π b (if p then x else y) := by
  by_cases h : p
  · rw [if_pos h]
    exact hx h
  · rw [if_neg h]
    exact hy h

theorem Yields.foldlM {ι : Type*} {g : α → ι → Except ε α} {l : List ι}
    (hg : ∀ a, ∀ i ∈ l, π a = b → Yields π b (g a i)) :
    ∀ a, π a = b → Yields π b (l.foldlM g a) := by
  induction l with
  | nil => exact fun a ha => .pure ha
  | cons i l ih =>
    intro a ha
    rw [foldlM_cons]
    exact (hg a i (mem_cons_self ..) ha).bind fun a' ha' =>
      ih (fun a j hj => hg a j (mem_cons_of_mem _ hj)) a' ha'

end Yields

theorem bind_eq_ok {x : Except ε α} {f : α → Except ε β} {b : β} :
    (x >>= f) = .ok b ↔ ∃ a, x = .ok a ∧ f a = .ok b := by
  cases x with
  | ok a => simp [Bind.bind, Except.bind]
  | error e => simp [Bind.bind, Except.bind]

end NocSwap
