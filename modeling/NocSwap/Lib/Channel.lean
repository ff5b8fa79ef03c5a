import Mathlib.Algebra.Order.Group.Multiset
import Mathlib.Data.List.Basic
import Mathlib.Tactic.Abel

/-!
# Message channels

A channel carries messages of one kind from their senders to the ports of their receivers. No
operation but `send` and `pop` changes its content, and per key the order is kept by `Follows`.
-/

namespace NocSwap

open List Multiset

/-- A channel for messages of type `μ`. -/
structure MsgChannel (μ : Type*) where
  /-- Sent and not yet delivered. -/
  net : List μ := []
  /-- Delivered, in the buffers of all ports. -/
  buf : List μ := []
  /-- Put aside by a receiver. -/
  held : List μ := []
  deriving Repr

namespace MsgChannel

variable {μ : Type*}

def send (ms : List μ) (c : MsgChannel μ) : MsgChannel μ := { c with net := c.net ++ ms }

/-- The message at position `k` arrives. -/
def deliver (k : Nat) (c : MsgChannel μ) : MsgChannel μ :=
  match c.net[k]? with
  | some m => { c with net := c.net.eraseIdx k, buf := c.buf ++ [m] }
  | none => c

/-- No message before position `k` goes the same way. -/
def Foremost (same : μ → μ → Bool) (k : Nat) (c : MsgChannel μ) : Prop :=
  ∀ m ∈ c.net[k]?, (c.net.take k).all fun m' => !same m' m

instance (same : μ → μ → Bool) (k : Nat) (c : MsgChannel μ) : Decidable (c.Foremost same k) :=
  inferInstanceAs (Decidable (∀ m ∈ c.net[k]?, _))

/-- The first message at port `p`. -/
def head (p : μ → Bool) (c : MsgChannel μ) : Option μ := c.buf.find? p

/-- Takes the first message at port `p`. -/
def pop (p : μ → Bool) (c : MsgChannel μ) : MsgChannel μ := { c with buf := c.buf.eraseP p }

/-- Moves the first message at port `p` behind the others. -/
def delayHead (p : μ → Bool) (c : MsgChannel μ) : MsgChannel μ :=
  { c with buf := c.buf.eraseP p ++ (c.buf.find? p).toList }

/-- Puts the first message at port `p` aside. -/
def recycle (p : μ → Bool) (c : MsgChannel μ) : MsgChannel μ :=
  { c with buf := c.buf.eraseP p, held := c.held ++ (c.buf.find? p).toList }

/-- A message put aside comes back. -/
def requeue (k : Nat) (c : MsgChannel μ) : MsgChannel μ :=
  match c.held[k]? with
  | some m => { c with held := c.held.eraseIdx k, buf := c.buf ++ [m] }
  | none => c

/-- All messages of port `p` put aside come back. -/
def requeueAll (p : μ → Bool) (c : MsgChannel μ) : MsgChannel μ :=
  { c with held := c.held.filter fun m => !p m, buf := c.buf ++ c.held.filter p }

/-- The messages of the channel. -/
def content (c : MsgChannel μ) : Multiset μ := c.net + c.buf + c.held

section Content

variable {c : MsgChannel μ} {p : μ → Bool} {m : μ}

@[simp] theorem content_send (ms : List μ) (c : MsgChannel μ) :
    (c.send ms).content = c.content + (ms : Multiset μ) := by
  simp only [content, send]
  rw [← coe_add]
  abel

theorem filterMap_content_send {ν : Type*} (f : μ → Option ν) (ms : List μ) (c : MsgChannel μ) :
    (c.send ms).content.filterMap f = c.content.filterMap f + (ms.filterMap f : Multiset ν) := by
  rw [content_send, filterMap_add, filterMap_coe]

theorem coe_eq_add_eraseIdx {l : List μ} {k : Nat} (h : l[k]? = some m) :
    (l : Multiset μ) = {m} + (l.eraseIdx k : Multiset μ) := by
  rw [Multiset.singleton_add, cons_coe, coe_eq_coe]
  obtain ⟨hk, rfl⟩ := List.getElem?_eq_some_iff.mp h
  exact (getElem_cons_eraseIdx_perm hk).symm

@[simp] theorem content_deliver (k : Nat) (c : MsgChannel μ) :
    (c.deliver k).content = c.content := by
  unfold deliver
  cases hm : c.net[k]? with
  | none => rfl
  | some m =>
    simp only [content]
    rw [coe_eq_add_eraseIdx hm, ← coe_add, coe_singleton]
    abel

section

variable (h : c.head p = some m)
include h

theorem exists_of_head : ∃ l₁ l₂, c.buf = l₁ ++ m :: l₂ ∧ (∀ a ∈ l₁, p a = false) ∧ p m = true ∧
      c.buf.eraseP p = l₁ ++ l₂ := by
  obtain ⟨hp, l₁, l₂, hbuf, hl₁⟩ := List.find?_eq_some_iff_append.mp h
  replace hl₁ : ∀ a ∈ l₁, p a = false := fun a ha => by simpa using hl₁ a ha
  refine ⟨l₁, l₂, hbuf, hl₁, hp, ?_⟩
  rw [hbuf, eraseP_append_right _ fun a ha => by simp [hl₁ a ha], eraseP_cons_of_pos hp]

/-- Taking a message removes it and no other. -/
theorem content_pop : c.content = m ::ₘ (c.pop p).content := by
  obtain ⟨l₁, l₂, hbuf, -, -, herase⟩ := exists_of_head h
  unfold content pop
  rw [herase, hbuf, ← coe_add, ← coe_add, ← cons_coe]
  simp only [add_cons, cons_add]

theorem filterMap_content_of_some {ν : Type*} {f : μ → Option ν} {a : ν}
    (hf : f m = some a) : c.content.filterMap f = a ::ₘ (c.pop p).content.filterMap f := by
  rw [content_pop h, filterMap_cons_some _ _ _ hf]

theorem filterMap_content_of_none {ν : Type*} {f : μ → Option ν}
    (hf : f m = none) : (c.pop p).content.filterMap f = c.content.filterMap f := by
  rw [content_pop h, filterMap_cons_none _ _ hf]

end

theorem content_eq_pop_add (p : μ → Bool) (c : MsgChannel μ) :
    c.content = (c.pop p).content + ((c.head p).toList : Multiset μ) := by
  cases hm : c.head p with
  | none =>
    have hfind : c.buf.find? p = none := hm
    unfold pop
    rw [eraseP_of_forall_not fun a ha => by simpa using List.find?_eq_none.mp hfind a ha]
    simp
  | some m => rw [content_pop hm, Option.toList_some, coe_singleton,
      Multiset.add_comm, Multiset.singleton_add]

theorem mem_content_of_mem_pop {a : μ} (h : a ∈ (c.pop p).content) : a ∈ c.content := by
  rw [content_eq_pop_add p]
  exact Multiset.mem_add.mpr (.inl h)

theorem mem_content_of_head (h : c.head p = some m) : m ∈ c.content := by
  rw [content_pop h]
  exact Multiset.mem_cons_self ..

theorem pos_of_head (h : c.head p = some m) : p m = true := find?_some h

@[simp] theorem content_delayHead (p : μ → Bool) (c : MsgChannel μ) :
    (c.delayHead p).content = c.content := by
  rw [content_eq_pop_add p c]
  simp only [delayHead, pop, content, head]
  rw [← coe_add]
  abel

@[simp] theorem content_recycle (p : μ → Bool) (c : MsgChannel μ) :
    (c.recycle p).content = c.content := by
  rw [content_eq_pop_add p c]
  simp only [recycle, pop, content, head]
  rw [← coe_add]
  abel

@[simp] theorem content_requeue (k : Nat) (c : MsgChannel μ) :
    (c.requeue k).content = c.content := by
  unfold requeue
  cases hm : c.held[k]? with
  | none => rfl
  | some m =>
    simp only [content]
    rw [coe_eq_add_eraseIdx hm, ← coe_add, coe_singleton]
    abel

@[simp] theorem content_requeueAll (p : μ → Bool) (c : MsgChannel μ) :
    (c.requeueAll p).content = c.content := by
  have hheld : (c.held : Multiset μ) =
      (c.held.filter p : Multiset μ) + (c.held.filter fun m => !p m : Multiset μ) := by
    rw [coe_add, coe_eq_coe]
    exact (filter_append_perm p c.held).symm
  simp only [requeueAll, content]
  rw [hheld, ← coe_add]
  abel

end Content

section Order

variable {c : MsgChannel μ} {p q : μ → Bool} {m : μ}

/-- The messages not put aside, in the order in which they come if the network keeps it. -/
def queue (c : MsgChannel μ) : List μ := c.buf ++ c.net

theorem queue_send (ms : List μ) (c : MsgChannel μ) : (c.send ms).queue = c.queue ++ ms :=
  (append_assoc ..).symm

theorem mem_content_of_mem_queue (h : m ∈ c.queue) : m ∈ c.content := by
  rcases mem_append.mp h with h | h
  · exact Multiset.mem_add.mpr (.inl (Multiset.mem_add.mpr (.inr h)))
  · exact Multiset.mem_add.mpr (.inl (Multiset.mem_add.mpr (.inl h)))

theorem mem_queue_of_mem_content (hheld : c.held = []) (h : m ∈ c.content) : m ∈ c.queue := by
  unfold content at h
  rw [hheld] at h
  simp only [mem_add, mem_coe, not_mem_nil, or_false] at h
  exact mem_append.mpr h.symm

theorem queue_pop_sublist (p : μ → Bool) (c : MsgChannel μ) : (c.pop p).queue.Sublist c.queue :=
  List.Sublist.append_right eraseP_sublist c.net

theorem filter_queue_of_head (h : c.head p = some m) (hq : ∀ a, q a = true → p a = true)
    (hm : q m = true) : c.queue.filter q = m :: (c.pop p).queue.filter q := by
  obtain ⟨l₁, l₂, hbuf, hl₁, -, herase⟩ := exists_of_head h
  have hnone : l₁.filter q = [] := by
    rw [filter_eq_nil_iff]
    intro a ha hqa
    exact absurd (hq a hqa) (by simp [hl₁ a ha])
  simp only [queue, pop, herase]
  rw [hbuf]
  simp [hnone, hm]

/-- A delivery in order keeps the order of each way. -/
theorem filter_queue_deliver {same : μ → μ → Bool} {k : Nat} (hf : c.Foremost same k)
    (hq : ∀ a ∈ c.net, ∀ b ∈ c.net, q a = true → q b = true → same a b = true) :
    (c.deliver k).queue.filter q = c.queue.filter q := by
  unfold deliver
  cases hm : c.net[k]? with
  | none => rfl
  | some m =>
    obtain ⟨hk, rfl⟩ := List.getElem?_eq_some_iff.mp hm
    have hnet : c.net.filter q =
        (c.net.take k).filter q ++ (c.net[k] :: c.net.drop (k + 1)).filter q := by
      rw [← filter_append, getElem_cons_drop, take_append_drop]
    simp only [queue, eraseIdx_eq_take_drop_succ, filter_append]
    rw [hnet]
    by_cases hqm : q c.net[k] = true
    · -- no message of the kind comes before it
      have hnone : (c.net.take k).filter q = [] := by
        rw [filter_eq_nil_iff]
        intro a ha hqa
        have hsame := hq a (mem_of_mem_take ha) _ (getElem_mem hk) hqa hqm
        have hfirst := all_eq_true.mp (hf _ hm) a ha
        simp [hsame] at hfirst
      simp only [hnone, filter_cons_of_pos hqm]
      simp
    · simp only [filter_cons_of_neg hqm]
      simp

theorem filter_queue_delayHead (h : c.head p = some m) (hm : q m = false) :
    (c.delayHead p).queue.filter q = c.queue.filter q := by
  obtain ⟨l₁, l₂, hbuf, -, -, herase⟩ := exists_of_head h
  have hfind : c.buf.find? p = some m := h
  simp only [queue, delayHead, herase, hfind]
  rw [hbuf]
  simp [hm]

theorem filter_queue_pop (h : c.head p = some m) (hm : q m = false) :
    (c.pop p).queue.filter q = c.queue.filter q := by
  obtain ⟨l₁, l₂, hbuf, -, -, herase⟩ := exists_of_head h
  simp only [queue, pop, herase]
  rw [hbuf]
  simp [hm]

end Order

section Follows

variable {κ : Type*} [DecidableEq κ] {key : μ → κ} {c : MsgChannel μ} {G : List μ} {m : μ}

/-- `G` lists the messages not put aside, and those of one key in the order in which they come. -/
def Follows (key : μ → κ) (G : List μ) (c : MsgChannel μ) : Prop :=
  ∀ k, c.queue.filter (fun m => key m = k) = G.filter fun m => key m = k

section

variable (h : c.Follows key G)
include h

theorem Follows.mem_iff : m ∈ c.queue ↔ m ∈ G := by
  have hmem : ∀ l : List μ, m ∈ l ↔ m ∈ l.filter fun a => key a = key m := by simp
  rw [hmem c.queue, hmem G, h (key m)]

theorem Follows.send (ms : List μ) : (c.send ms).Follows key (G ++ ms) := by
  intro k
  rw [queue_send, filter_append, filter_append, h k]

theorem Follows.deliver {same : μ → μ → Bool} {n : Nat}
    (hf : c.Foremost same n) (hs : ∀ a b, key a = key b → same a b = true) :
    (c.deliver n).Follows key G := by
  intro k
  rw [filter_queue_deliver hf, h k]
  intro a _ b _ ha hb
  exact hs a b ((of_decide_eq_true ha).trans (of_decide_eq_true hb).symm)

theorem Follows.pop {p : μ → Bool} (hm : c.head p = some m) (hp : ∀ a, key a = key m → p a = true) :
    (c.pop p).Follows key (G.eraseP fun a => key a = key m) := by
  have hfirst := filter_queue_of_head (q := fun a => key a = key m) hm (by simpa using hp) (by simp)
  rw [h (key m), filter_eq_cons_iff] at hfirst
  obtain ⟨l₁, l₂, hG, hl₁, -, hl₂⟩ := hfirst
  have herase : G.eraseP (fun a => key a = key m) = l₁ ++ l₂ := by
    rw [hG, eraseP_append_right _ hl₁, eraseP_cons_of_pos (by simp)]
  intro k
  rw [herase, filter_append]
  rcases eq_or_ne (key m) k with rfl | hk
  · rw [filter_eq_nil_iff.mpr hl₁, hl₂, nil_append]
  · rw [filter_queue_pop hm (by simpa using hk), h k, hG]
    simp [hk]

end

end Follows

end MsgChannel

end NocSwap
