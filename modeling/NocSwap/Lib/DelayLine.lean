import Mathlib.Data.List.Basic
import Mathlib.Order.Nat

/-!
# Delay lines

A source puts entries into a queue, a carrier moves them to a line, to be due `L` cycles later, and
a sink takes them.
-/

namespace NocSwap

open List

universe u

class Timed (α : Type u) where
  time : α → Nat
  setTime : α → Nat → α
  insert : α → List α → List α
  time_setTime : ∀ a t, time (setTime a t) = t
  insert_last : ∀ a l, (∀ b ∈ l, time b < time a) → insert a l = l ++ [a]

def dropReady {α : Type u} [Timed α] (now : Nat) : List α → List α
  | [] => []
  | a :: l => if Timed.time a ≤ now then l else a :: l

theorem dropReady_of_le {α : Type u} [Timed α] {now : Nat} {a : α} {l : List α}
    (h : Timed.time a ≤ now) : dropReady now (a :: l) = l :=
  if_pos h

theorem dropReady_of_not_le {α : Type u} [Timed α] {now : Nat} {a : α} {l : List α}
    (h : ¬ Timed.time a ≤ now) : dropReady now (a :: l) = a :: l :=
  if_neg h

/-- The state of a delay line. -/
structure DelayLine (α : Type u) where
  now : Nat
  queue : List α
  line : List α
  /-- the source has been woken in this cycle -/
  sourceDone : Prop
  /-- the carrier has been woken in this cycle -/
  carrierDone : Prop
  /-- the sink has been woken in this cycle -/
  sinkDone : Prop
  /-- the cycles in which the carrier is to be woken -/
  carrier : Nat → Prop
  /-- the cycles in which the sink is to be woken -/
  sink : Nat → Prop

namespace DelayLine

variable {α : Type u} [Timed α] {δ L : Nat} {C S : Prop} {x y : DelayLine α}

open Timed

/-! ### Steps -/

structure Within (x y : DelayLine α) : Prop where
  now : y.now = x.now
  sourceDone : x.sourceDone → y.sourceDone
  carrierDone : x.carrierDone → y.carrierDone
  carrier : ∀ t, x.now < t → x.carrier t → y.carrier t
  sink : ∀ t, x.now < t → x.sink t → y.sink t

/-- The steps of a delay line with latency `L` whose entries are ready `δ` cycles later. -/
inductive Step (δ L : Nat) (C S : Prop) (x y : DelayLine α) : Prop
  | idle (h : Within x y) (hc : x.carrier x.now → y.carrier x.now) (hs : x.sink x.now → y.sink x.now)
      (hq : y.queue = x.queue) (hl : y.line = x.line)
  | put (h : Within x y) (hc : x.carrier x.now → y.carrier x.now) (hs : x.sink x.now → y.sink x.now)
      {a : α} (ha : time a = x.now + δ) (hfresh : ¬ x.sourceDone) (hdone : y.sourceDone)
      (hnext : y.carrier (x.now + 1)) (hq : y.queue = insert a x.queue) (hl : y.line = x.line)
  | carry (hC : C) (h : Within x y) (hs : x.sink x.now → y.sink x.now) (hfresh : ¬ x.carrierDone)
      (hdone : y.carrierDone) {a : α} {rest : List α} (hx : x.queue = a :: rest)
      (ha : time a ≤ x.now) (hq : y.queue = rest)
      (hl : y.line = insert (setTime a (x.now + L)) x.line)
      (hsink : 1 ≤ L ∨ ¬ x.sinkDone → y.sink (x.now + L))
  | wait (h : Within x y) (hs : x.sink x.now → y.sink x.now) (hx : dropReady x.now x.queue = x.queue)
      (hq : y.queue = x.queue) (hl : y.line = x.line)
  | take (hS : S) (h : Within x y) (hc : x.carrier x.now → y.carrier x.now) (hq : y.queue = x.queue)
      (hl : y.line = dropReady x.now x.line)
  | tick (hnow : y.now = x.now + 1) (hcarrier : ¬ x.carrier x.now) (hsink : ¬ x.sink x.now)
      (hc : ∀ t, x.carrier t → y.carrier t) (hs : ∀ t, x.sink t → y.sink t)
      (hq : y.queue = x.queue) (hl : y.line = x.line)

/-! ### The queue -/

/-- The queue holds at most one entry of the last cycle, its carrier still to be woken, and one of
this. -/
structure Queued (δ : Nat) (x : DelayLine α) : Prop where
  near : ∀ a ∈ x.queue, time a = x.now + δ ∨ time a + 1 = x.now + δ
  sorted : x.queue.Pairwise fun a b => time a < time b
  new : ∀ a ∈ x.queue, time a = x.now + δ → x.sourceDone ∧ x.carrier (x.now + 1)
  old : ∀ a ∈ x.queue, time a + 1 = x.now + δ → x.carrier x.now

theorem dropReady_eq_self {now : Nat} {l : List α} (hl : l.Pairwise fun a b => time a < time b)
    (h : dropReady now l = l) : ∀ a ∈ l, now < time a := by
  cases l with
  | nil => exact fun _ h => nomatch h
  | cons b rest =>
    have hb : ¬ time b ≤ now := fun hle => by
      rw [dropReady_of_le hle] at h
      exact cons_ne_self b rest h.symm
    intro a ha
    rcases mem_cons.mp ha with rfl | ha
    · exact Nat.lt_of_not_le hb
    · exact (Nat.lt_of_not_le hb).trans ((pairwise_cons.mp hl).1 a ha)

theorem sorted_insert {a : α} {l : List α} (hl : l.Pairwise fun a b => time a < time b)
    (ha : ∀ b ∈ l, time b < time a) :
    (insert a l).Pairwise (fun a b => time a < time b) ∧ ∀ b, b ∈ insert a l ↔ b ∈ l ∨ b = a := by
  rw [insert_last a l ha]
  refine ⟨pairwise_append.mpr ⟨hl, pairwise_singleton .., fun b hb c hc => ?_⟩, fun b => ?_⟩
  · rw [mem_singleton.mp hc]
    exact ha b hb
  · rw [mem_append, mem_singleton]

namespace Queued

theorem of_nil (h : x.queue = []) : Queued δ x := by
  have hnone : ∀ a, a ∉ x.queue := fun a ha => by
    rw [h] at ha
    cases ha
  refine ⟨fun a ha => absurd ha (hnone a), ?_, fun a ha => absurd ha (hnone a),
    fun a ha => absurd ha (hnone a)⟩
  rw [h]
  exact .nil

theorem keep (h : Queued δ x) (hw : Within x y) (hq : ∀ a ∈ y.queue, a ∈ x.queue)
    (hsorted : y.queue.Pairwise fun a b => time a < time b)
    (hc : ∀ a ∈ y.queue, time a + 1 = x.now + δ → x.carrier x.now → y.carrier x.now) :
    Queued δ y where
  near a ha := by
    rw [hw.now]
    exact h.near a (hq a ha)
  sorted := hsorted
  new a ha ht := by
    rw [hw.now] at ht ⊢
    obtain ⟨hdone, hnext⟩ := h.new a (hq a ha) ht
    exact ⟨hw.sourceDone hdone, hw.carrier _ (Nat.lt_succ_self _) hnext⟩
  old a ha ht := by
    rw [hw.now] at ht ⊢
    exact hc a ha ht (h.old a (hq a ha) ht)

theorem put (h : Queued δ x) (hw : Within x y) (hc : x.carrier x.now → y.carrier x.now) {a : α}
    (ha : time a = x.now + δ) (hfresh : ¬ x.sourceDone) (hdone : y.sourceDone)
    (hnext : y.carrier (x.now + 1)) (hq : y.queue = insert a x.queue) : Queued δ y := by
  have hold : ∀ b ∈ x.queue, time b + 1 = x.now + δ := fun b hb =>
    (h.near b hb).resolve_left fun ht => hfresh (h.new b hb ht).1
  obtain ⟨hsorted, hmem⟩ := sorted_insert h.sorted (a := a) fun b hb => by
    rw [ha, ← hold b hb]
    exact Nat.lt_succ_self _
  rw [← hq] at hsorted
  simp only [← hq] at hmem
  refine ⟨fun b hb => ?_, hsorted, fun b _ _ => ?_, fun b hb ht => ?_⟩
  · rw [hw.now]
    rcases (hmem b).mp hb with hb | rfl
    · exact .inr (hold b hb)
    · exact .inl ha
  · rw [hw.now]
    exact ⟨hdone, hnext⟩
  · rw [hw.now] at ht ⊢
    rcases (hmem b).mp hb with hb | rfl
    · exact hc (h.old b hb ht)
    · omega

theorem tick (h : Queued δ x) (hnow : y.now = x.now + 1) (hcarrier : ¬ x.carrier x.now)
    (hc : ∀ t, x.carrier t → y.carrier t) (hq : y.queue = x.queue) : Queued δ y := by
  have hnew : ∀ a ∈ x.queue, time a = x.now + δ := fun a ha =>
    (h.near a ha).resolve_right fun ht => hcarrier (h.old a ha ht)
  refine ⟨fun a ha => ?_, hq ▸ h.sorted, fun a ha ht => ?_, fun a ha _ => ?_⟩
  · have := hnew a (hq ▸ ha)
    omega
  · have := hnew a (hq ▸ ha)
    omega
  · rw [hnow]
    exact hc _ (h.new a (hq ▸ ha) (hnew a (hq ▸ ha))).2

theorem step (hδ : δ ≤ 1) (h : Queued δ x) (hs : Step δ L C S x y) : Queued δ y := by
  cases hs with
  | idle hw hc _ hq _ => exact h.keep hw (fun a ha => hq ▸ ha) (hq ▸ h.sorted) fun _ _ _ => hc
  | put hw hc _ ha hfresh hdone hnext hq _ => exact h.put hw hc ha hfresh hdone hnext hq
  | take _ hw hc hq _ => exact h.keep hw (fun a ha => hq ▸ ha) (hq ▸ h.sorted) fun _ _ _ => hc
  | tick hnow hcarrier _ hc _ hq _ => exact h.tick hnow hcarrier hc hq
  | wait hw _ hx hq _ =>
    -- nothing is ready, so every entry is of this cycle
    refine h.keep hw (fun a ha => hq ▸ ha) (hq ▸ h.sorted) fun a ha ht => ?_
    have := dropReady_eq_self h.sorted hx a (hq ▸ ha)
    omega
  | @carry _ hw _ _ _ a rest hx ha hq _ _ =>
    -- the head goes, and what stays is later than the head, hence of this cycle
    have hsorted := h.sorted
    have hhead := h.near a (hx ▸ mem_cons_self ..)
    rw [hx] at hsorted
    obtain ⟨hlt, hrest⟩ := pairwise_cons.mp hsorted
    refine h.keep hw (fun b hb => ?_) (hq ▸ hrest) fun b hb ht => ?_
    · rw [hx]
      exact mem_cons_of_mem _ (hq ▸ hb)
    · have := hlt b (hq ▸ hb)
      omega

section

variable (h : Queued δ x) (hc : ¬ x.carrier x.now)
include h hc

theorem eq_of_done : ∀ a ∈ x.queue, time a = x.now + δ :=
  fun a ha => (h.near a ha).resolve_right fun ht => hc (h.old a ha ht)

theorem length_le_one : x.queue.length ≤ 1 := by
  have heq := h.eq_of_done hc
  have hsorted := h.sorted
  match hx : x.queue with
  | [] => exact Nat.zero_le 1
  | [_] => exact le_refl 1
  | a :: b :: rest =>
    rw [hx] at heq hsorted
    have hlt := (pairwise_cons.mp hsorted).1 b (mem_cons_self ..)
    rw [heq a (mem_cons_self ..), heq b (mem_cons_of_mem _ (mem_cons_self ..))] at hlt
    exact absurd hlt (lt_irrefl _)

theorem carrier_next (hne : x.queue ≠ []) : x.carrier (x.now + 1) := by
  obtain ⟨a, ha⟩ := exists_mem_of_ne_nil _ hne
  exact (h.new a ha (h.eq_of_done hc a ha)).2

end

end Queued

/-! ### The line -/

/-- The entries of the line are due in different cycles, in each of which the sink is still to be
woken. -/
structure Timely (L : Nat) (x : DelayLine α) : Prop where
  sorted : x.line.Pairwise fun a b => time a < time b
  ge : ∀ a ∈ x.line, x.now ≤ time a
  sink : ∀ a ∈ x.line, x.sink (time a)
  le : ∀ a ∈ x.line, time a ≤ x.now + L
  last : ∀ a ∈ x.line, time a = x.now + L → x.carrierDone

/-- A step does nothing to the line, puts the head of the queue on it, or takes the entry that is
due. -/
inductive Carried (L : Nat) (C S : Prop) (x y : DelayLine α) : Prop
  | kept (h : y.line = x.line)
  | moved (hC : C) {a : α} (hq : x.queue = a :: y.queue)
      (hl : y.line = x.line ++ [setTime a (x.now + L)])
  | taken (hS : S) {a : α} (ha : time a = x.now) (hl : x.line = a :: y.line)

namespace Timely

theorem of_nil (h : x.line = []) : Timely L x := by
  have hnone : ∀ a, a ∉ x.line := fun a ha => by
    rw [h] at ha
    cases ha
  refine ⟨?_, fun a ha => absurd ha (hnone a), fun a ha => absurd ha (hnone a),
    fun a ha => absurd ha (hnone a), fun a ha => absurd ha (hnone a)⟩
  rw [h]
  exact .nil

theorem keep (h : Timely L x) (hw : Within x y) (hl : ∀ a ∈ y.line, a ∈ x.line)
    (hsorted : y.line.Pairwise fun a b => time a < time b)
    (hs : ∀ a ∈ y.line, time a = x.now → x.sink x.now → y.sink x.now) : Timely L y where
  sorted := hsorted
  ge a ha := hw.now ▸ h.ge a (hl a ha)
  sink a ha := by
    have hsink := h.sink a (hl a ha)
    rcases Nat.eq_or_lt_of_le (h.ge a (hl a ha)) with heq | hlt
    · rw [← heq] at hsink ⊢
      exact hs a ha heq.symm hsink
    · exact hw.sink _ hlt hsink
  le a ha := hw.now ▸ h.le a (hl a ha)
  last a ha ht := hw.carrierDone (h.last a (hl a ha) (hw.now ▸ ht))

theorem carry (h : Timely L x) (hw : Within x y) (hs : x.sink x.now → y.sink x.now)
    (hfresh : ¬ x.carrierDone) (hdone : y.carrierDone) {a : α}
    (hl : y.line = insert (setTime a (x.now + L)) x.line) (hsink : y.sink (x.now + L)) :
    Timely L y ∧ y.line = x.line ++ [setTime a (x.now + L)] := by
  have hlt : ∀ b ∈ x.line, time b < time (setTime a (x.now + L)) := fun b hb => by
    rw [time_setTime]
    exact lt_of_le_of_ne (h.le b hb) fun heq => hfresh (h.last b hb heq)
  obtain ⟨hsorted, hmem⟩ := sorted_insert h.sorted hlt
  rw [← hl] at hsorted
  simp only [← hl] at hmem
  refine ⟨⟨hsorted, fun b hb => ?_, fun b hb => ?_, fun b hb => ?_, fun _ _ _ => hdone⟩,
    hl.trans (insert_last _ _ hlt)⟩
  all_goals rcases (hmem b).mp hb with hb | rfl
  · exact hw.now ▸ h.ge b hb
  · rw [hw.now, time_setTime]
    exact Nat.le_add_right ..
  · rcases Nat.eq_or_lt_of_le (h.ge b hb) with heq | hb'
    · exact heq ▸ hs (heq ▸ h.sink b hb)
    · exact hw.sink _ hb' (h.sink b hb)
  · rw [time_setTime]
    exact hsink
  · exact hw.now ▸ h.le b hb
  · rw [hw.now, time_setTime]

theorem dropReady (h : Timely L x) : (∀ a ∈ NocSwap.dropReady x.now x.line, a ∈ x.line ∧
    x.now < time a) ∧ (NocSwap.dropReady x.now x.line = x.line ∨
      ∃ a, time a = x.now ∧ x.line = a :: NocSwap.dropReady x.now x.line) := by
  have hsorted := h.sorted
  have hge := h.ge
  cases hx : x.line with
  | nil => exact ⟨fun a ha => (nomatch ha), .inl rfl⟩
  | cons a rest =>
    rw [hx] at hsorted hge
    have hlt := (pairwise_cons.mp hsorted).1
    have ha := hge a (mem_cons_self ..)
    rw [NocSwap.dropReady]
    split_ifs with hle
    · refine ⟨fun b hb => ⟨mem_cons_of_mem _ hb, lt_of_le_of_lt ha (hlt b hb)⟩,
        .inr ⟨a, le_antisymm hle ha, rfl⟩⟩
    · refine ⟨fun b hb => ⟨hb, ?_⟩, .inl rfl⟩
      rcases mem_cons.mp hb with rfl | hb
      · exact Nat.lt_of_not_le hle
      · exact lt_of_le_of_lt ha (hlt b hb)

theorem tick (h : Timely L x) (hnow : y.now = x.now + 1) (hsink : ¬ x.sink x.now)
    (hs : ∀ t, x.sink t → y.sink t) (hl : y.line = x.line) : Timely L y := by
  have hlt : ∀ a ∈ x.line, x.now < time a := fun a ha =>
    lt_of_le_of_ne (h.ge a ha) fun heq => hsink (heq ▸ h.sink a ha)
  refine ⟨hl ▸ h.sorted, fun a ha => ?_, fun a ha => hs _ (h.sink a (hl ▸ ha)), fun a ha => ?_,
    fun a ha ht => ?_⟩
  · rw [hnow]
    exact hlt a (hl ▸ ha)
  · have := h.le a (hl ▸ ha)
    omega
  · have := h.le a (hl ▸ ha)
    omega

section

variable (hL : C → 1 ≤ L ∨ ¬ x.sinkDone) (h : Timely L x) (hs : Step δ L C S x y)
include hL h hs

theorem step : Timely L y := by
  cases hs with
  | idle hw _ hs _ hl | put hw _ hs _ _ _ _ _ hl | wait hw hs _ _ hl =>
    exact h.keep hw (fun a ha => hl ▸ ha) (hl ▸ h.sorted) fun _ _ _ => hs
  | carry hC hw hs hfresh hdone _ _ _ hl hsink =>
    exact (h.carry hw hs hfresh hdone hl (hsink (hL hC))).1
  | tick hnow _ hsink _ hs _ hl => exact h.tick hnow hsink hs hl
  | take _ hw _ _ hl =>
    obtain ⟨hmem, hcases⟩ := h.dropReady
    refine h.keep hw (fun a ha => (hmem a (hl ▸ ha)).1) ?_ fun a ha ht => ?_
    · rw [hl]
      rcases hcases with heq | ⟨a, -, heq⟩
      · rw [heq]
        exact h.sorted
      · have hsorted := h.sorted
        rw [heq] at hsorted
        exact (pairwise_cons.mp hsorted).2
    · exact absurd ht (hmem a (hl ▸ ha)).2.ne'

theorem carried : Carried L C S x y := by
  cases hs with
  | idle _ _ _ _ hl | put _ _ _ _ _ _ _ _ hl | wait _ _ _ _ hl | tick _ _ _ _ _ _ hl =>
    exact .kept hl
  | carry hC hw hs hfresh hdone hx _ hq hl hsink =>
    exact .moved hC (hx.trans (congrArg _ hq.symm))
      (h.carry hw hs hfresh hdone hl (hsink (hL hC))).2
  | take hS _ _ _ hl =>
    rcases h.dropReady.2 with heq | ⟨a, ha, heq⟩
    · exact .kept (hl.trans heq)
    · exact .taken hS ha (hl ▸ heq)

end

theorem lt_time (h : Timely L x) (hs : ¬ x.sink x.now) : ∀ a ∈ x.line, x.now < time a :=
  fun a ha => lt_of_le_of_ne (h.ge a ha) fun heq => hs (heq ▸ h.sink a ha)

end Timely

end DelayLine

end NocSwap
