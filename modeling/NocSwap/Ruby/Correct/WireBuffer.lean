import Mathlib.Data.List.Perm.Subperm
import NocSwap.Ruby.Correct.BufferRun
import NocSwap.Ruby.WireBuffer

/-!
# The order of wire buffers

`enqueue` appends to the vector and does not call `push_heap`, so the vector stays a heap only if
what is appended comes last. In a heap the front is a first message, and two messages leave in the
order of their `enqueue` if the second one comes after the first one.
-/

namespace NocSwap.WireBuffer

open List

variable {q : List Message}

theorem isHeap_head {x : Message} (h : IsHeap (x :: q)) (i : Nat) :
    ∀ y, (x :: q)[i]? = some y → x.le y = true := by
  induction i using Nat.strongRecOn with
  | ind i ih =>
    intro y hy
    by_cases hi : i = 0
    · subst hi
      cases hy
      exact Message.le_iff.mpr (.inr ⟨rfl, le_rfl⟩)
    · have hlt := (List.getElem?_eq_some_iff.mp hy).1
      obtain ⟨z, hz⟩ : ∃ z, (x :: q)[(i - 1) / 2]? = some z :=
        ⟨_, getElem?_eq_getElem (by omega)⟩
      have hxz := ih _ (by omega) z hz
      have hzy := h i z y (by omega) hz hy
      rw [Message.le_iff] at hxz hzy ⊢
      omega

/-- The message that is enqueued comes after every buffered one. -/
def Last (q : List Message) (m : Message) : Prop := ∀ x ∈ q, m.le x = false

theorem Last.le {m x : Message} (h : Last q m) (hx : x ∈ q) : x.le m = true := by
  have hm := Bool.eq_false_iff.mp (h x hx)
  rw [Ne, Message.le_iff] at hm
  rw [Message.le_iff]
  omega

theorem isHeap_append {m : Message} (h : IsHeap q) (hm : Last q m) : IsHeap (q ++ [m]) := by
  intro i x y hi hx hy
  have hlt := (List.getElem?_eq_some_iff.mp hy).1
  rw [length_append, length_singleton] at hlt
  rw [getElem?_append_left (by omega)] at hx
  by_cases hlast : i < q.length
  · rw [getElem?_append_left hlast] at hy
    exact h i x y hi hx hy
  · obtain rfl : i = q.length := by omega
    rw [getElem?_concat_length] at hy
    cases hy
    exact hm.le (mem_of_getElem? hx)

/-- The vector is a heap, and the messages that were never recycled are some of it, each enqueued
after the ones before it. -/
structure Ordered (fresh q : List Message) : Prop where
  heap : IsHeap q
  subperm : fresh <+~ q
  sorted : fresh.Pairwise fun x y => y.le x = false

theorem Ordered.erase {fresh rest : List Message} {x : Message} (h : Ordered fresh q)
    (hpop : PopHeap q x rest) : Ordered (fresh.erase x) rest := by
  cases hpop with
  | unspecified hq => exact absurd h.heap hq
  | @heap x q' rest _ hperm hrest =>
    refine ⟨hrest, ?_, h.sorted.sublist erase_sublist⟩
    have hsub := h.subperm.erase x
    rw [erase_cons_head] at hsub
    exact hsub.trans hperm.symm.subperm

/-- **One induction over the calls** gives the order of the vector. -/
theorem ordered_of_reach {fresh : List Message} (h : Reach Last fresh q) : Ordered fresh q := by
  induction h with
  | init => exact ⟨(fun _ _ _ _ hx => nomatch hx), .refl _, .nil⟩
  | enqueue m currentTime delta _ _ hC ih =>
    refine ⟨isHeap_append ih.heap hC, ih.subperm.append (.refl _), pairwise_append.mpr
      ⟨ih.sorted, pairwise_singleton .., fun x hx y hy => ?_⟩⟩
    rw [mem_singleton.mp hy]
    exact hC x (ih.subperm.subset hx)
  | dequeue _ _ hpop ih => exact ih.erase hpop
  | @recycle _ q rest q' m x _ _ _ _ hfront hpop hpush ih =>
    have hx : x = m := by
      cases hpop with
      | heap => exact Option.some_inj.mp hfront
      | unspecified hq => exact absurd ih.heap hq
    subst hx
    have hrest := ih.erase hpop
    cases hpush with
    | unspecified hq => exact absurd hrest.heap hq
    | heap _ hperm hq' =>
      exact ⟨hq', hrest.subperm.trans ((sublist_append_left ..).subperm.trans hperm.symm.subperm),
        hrest.sorted⟩

/-- **Wire buffers.** If each message comes after every buffered one when it is enqueued, `isReady`
is exact, `peek` and `dequeue` give a smallest arrival time, and the messages that are not recycled
leave in the order in which they were enqueued. -/
theorem wire_in_order {fresh : List Message} (h : Reach Last fresh q) :
    (∀ t, isReady q t = true ↔ ∃ m ∈ q, m.lastEnqueueTime ≤ t) ∧
    (∀ m, q.head? = some m → ∀ y ∈ q, m.lastEnqueueTime ≤ y.lastEnqueueTime) ∧
    ∀ x rest, PopHeap q x rest → q.head? = some x ∧ (x :: rest).Perm q ∧
      (∀ y ∈ rest, x.lastEnqueueTime ≤ y.lastEnqueueTime) ∧
      (x ∈ fresh → fresh.head? = some x) := by
  have hord := ordered_of_reach h
  have hle : ∀ m, q.head? = some m → ∀ y ∈ q, m.le y = true := by
    intro m hm y hy
    obtain ⟨rest, rfl⟩ := List.head?_eq_some_iff.mp hm
    obtain ⟨i, hi⟩ := List.mem_iff_getElem?.mp hy
    exact isHeap_head hord.heap i y hi
  have hmin : ∀ m, q.head? = some m → ∀ y ∈ q, m.lastEnqueueTime ≤ y.lastEnqueueTime := by
    intro m hm y hy
    have h := Message.le_iff.mp (hle m hm y hy)
    omega
  refine ⟨fun t => ?_, hmin, fun x rest hpop => ?_⟩
  · cases q with
    | nil => simp [isReady]
    | cons m q =>
      constructor
      · exact fun ht => ⟨m, mem_cons_self .., of_decide_eq_true ht⟩
      · rintro ⟨y, hy, ht⟩
        exact decide_eq_true ((hmin m rfl y hy).trans ht)
  · cases hpop with
    | unspecified hq => exact absurd hord.heap hq
    | heap _ hperm _ =>
      refine ⟨rfl, hperm.cons x, fun y hy => hmin x rfl y (mem_cons_of_mem _ (hperm.mem_iff.mp hy)),
        fun hx => ?_⟩
      -- a message behind the first one in `fresh` is after it, so it is not at the front
      cases fresh with
      | nil => cases hx
      | cons m ms =>
        rcases mem_cons.mp hx with rfl | hx
        · rfl
        · have hlate := (pairwise_cons.mp hord.sorted).1 x hx
          have hearly := hle x rfl m (hord.subperm.subset (mem_cons_self ..))
          cases hlate.symm.trans hearly

def blank : Message := ⟨0, 0, 0, 0, .singleton 0⟩

/-- Three messages of one delta, of which the first is recycled: the second one leaves next. -/
theorem wire_in_order_one :
    let msg (t : Nat) : Message := { blank with lastEnqueueTime := t }
    Reach Last [msg 4, msg 5] [msg 4, msg 5, msg 13] ∧
      isReady [msg 4, msg 5, msg 13] 4 = true ∧
      ∀ x rest, PopHeap [msg 4, msg 5, msg 13] x rest → x = msg 4 ∧ rest.Perm [msg 5, msg 13] := by
  intro msg
  have hnil : IsHeap [] := fun _ _ _ _ hx => nomatch hx
  have h₁ : Reach Last _ _ := .enqueue blank 0 3 .init (by decide) fun _ hx => nomatch hx
  have h₂ : Reach Last _ _ := .enqueue blank 1 3 h₁ (by decide) (by unfold Last; decide)
  have h₃ : Reach Last _ _ := .enqueue blank 2 3 h₂ (by decide) (by unfold Last; decide)
  have hrest : IsHeap [msg 4, msg 5] :=
    isHeap_append (isHeap_append hnil (by unfold Last; decide)) (by unfold Last; decide)
  have hpush : PushHeap [msg 4, msg 5] { msg 3 with lastEnqueueTime := 3 + 10 }
      [msg 4, msg 5, msg 13] :=
    .heap hrest (.refl _) (isHeap_append hrest (by unfold Last; decide))
  have hnow : isReady [msg 3, msg 4, msg 5] 3 = true := by decide
  have h : Reach Last [msg 4, msg 5] [msg 4, msg 5, msg 13] :=
    .recycle h₃ hnow rfl (.heap (ordered_of_reach h₃).heap (.refl _) hrest) hpush
  obtain ⟨hready, -, hpop⟩ := wire_in_order h
  refine ⟨h, (hready 4).mpr ⟨msg 4, by simp, le_rfl⟩, fun x rest hx => ?_⟩
  obtain ⟨hhead, hperm, -⟩ := hpop x rest hx
  obtain rfl := Option.some_inj.mp hhead
  exact ⟨rfl, hperm.cons_inv⟩

/-- The message that arrives at `1` is behind the one that arrives at `5`. -/
theorem wire_reordered :
    ∃ fresh x y, Reach (fun _ _ => True) fresh [x, y] ∧ y.lastEnqueueTime = 1 ∧ x.lastEnqueueTime = 5 ∧
      isReady [x, y] 1 = false :=
  ⟨_, _, _, .enqueue blank 0 1 (.enqueue blank 0 5 .init (by decide) trivial) (by decide) trivial,
    rfl, rfl, rfl⟩

end NocSwap.WireBuffer
