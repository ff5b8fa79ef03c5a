import NocSwap.Lib.LinkedList
import NocSwap.Sim.PriorityQueue

/-!
# The bins of an event queue

The pointers of the queue form a list of bins, each a stack of events with one time and priority.
-/

namespace NocSwap.Sim

open Function List Event Nat

namespace EventQueue

def content (bins : List (Nat × List Nat)) : List Nat := bins.flatMap fun b => b.1 :: b.2

@[simp] theorem content_nil : content [] = [] := rfl

@[simp] theorem content_cons (b : Nat × List Nat) (bins : List (Nat × List Nat)) :
    content (b :: bins) = b.1 :: (b.2 ++ content bins) := by
  simp [content]

@[simp] theorem content_append (bins bins' : List (Nat × List Nat)) :
    content (bins ++ bins') = content bins ++ content bins' :=
  flatMap_append ..

theorem mem_content {e : Nat} {bins : List (Nat × List Nat)} :
    e ∈ content bins ↔ ∃ b ∈ bins, e = b.1 ∨ e ∈ b.2 := by
  simp [content]

theorem top_mem_content {b : Nat × List Nat} {bins : List (Nat × List Nat)} (hb : b ∈ bins) :
    b.1 ∈ content bins :=
  mem_content.mpr ⟨b, hb, .inl rfl⟩

theorem length_le_length_content (bins : List (Nat × List Nat)) :
    bins.length ≤ (content bins).length := by
  induction bins with
  | nil => exact Nat.le_refl 0
  | cons b bins ih =>
    rw [content_cons, length_cons, length_cons, length_append]
    omega

structure SameOutside (l : List Nat) (q q' : EventQueue) : Prop where
  events : q'.events = q.events
  curTick : q'.curTick = q.curTick
  head : q'.head = q.head
  nextBin : ∀ e ∉ l, q'.nextBin e = q.nextBin e
  nextInBin : ∀ e ∉ l, q'.nextInBin e = q.nextInBin e

structure Bins (q : EventQueue) (p : Option Nat) (bins : List (Nat × List Nat)) : Prop where
  tops : Linked q.nextBin p (bins.map Prod.fst)
  stack : ∀ b ∈ bins, Linked q.nextInBin (q.nextInBin b.1) b.2
  same : ∀ b ∈ bins, ∀ e ∈ b.2, (q.events e).eq (q.events b.1)
  sorted : bins.Pairwise fun b b' => (q.events b.1).lt (q.events b'.1)
  nodup : (content bins).Nodup

namespace Bins

variable {q q' : EventQueue} {p v : Option Nat} {bins pre post post' : List (Nat × List Nat)}
  {b : Nat × List Nat} {event : Nat}

theorem congr (h : Bins q p bins) (hw : ∀ e ∈ content bins, (q'.events e).when = (q.events e).when ∧
      (q'.events e).priority = (q.events e).priority)
    (hb : ∀ e ∈ content bins, q'.nextBin e = q.nextBin e)
    (hi : ∀ e ∈ content bins, q'.nextInBin e = q.nextInBin e) : Bins q' p bins where
  tops := by
    apply h.tops.congr
    intro e he
    obtain ⟨b, hbm, rfl⟩ := mem_map.mp he
    exact hb _ (top_mem_content hbm)
  stack b hbm := by
    rw [hi _ (top_mem_content hbm)]
    apply (h.stack b hbm).congr
    exact fun e he => hi e (mem_content.mpr ⟨b, hbm, .inr he⟩)
  same b hbm e he := by
    have htop := hw _ (top_mem_content hbm)
    have hrest := hw e (mem_content.mpr ⟨b, hbm, .inr he⟩)
    have hold := h.same b hbm e he
    unfold eq at *
    rwa [htop.1, htop.2, hrest.1, hrest.2]
  sorted := by
    refine h.sorted.imp_of_mem fun {b b'} hbm hbm' hlt => ?_
    have h₁ := hw _ (top_mem_content hbm)
    have h₂ := hw _ (top_mem_content hbm')
    unfold lt at *
    rwa [h₁.1, h₁.2, h₂.1, h₂.2]
  nodup := h.nodup

theorem drop (h : Bins q p (pre ++ b :: post)) : Bins q (q.nextBin b.1) post where
  tops := by
    have := h.tops
    rw [map_append, map_cons] at this
    exact this.drop
  stack b' hb := h.stack b' (mem_append_right _ (mem_cons_of_mem _ hb))
  same b' hb := h.same b' (mem_append_right _ (mem_cons_of_mem _ hb))
  sorted := (pairwise_cons.mp (pairwise_append.mp h.sorted).2.1).2
  nodup := by
    have := h.nodup
    rw [content_append, content_cons] at this
    exact (nodup_append.mp (nodup_cons.mp (nodup_append.mp this).2.1).2).2.1

theorem tail (h : Bins q p (b :: post)) : Bins q (q.nextBin b.1) post := by
  have h' : Bins q p ([] ++ b :: post) := h
  exact h'.drop

theorem cons {t : Nat} {r : List Nat} (h : Bins q (q.nextBin t) post)
    (hr : Linked q.nextInBin (q.nextInBin t) r) (hsame : ∀ e ∈ r, (q.events e).eq (q.events t))
    (hlt : ∀ b ∈ post, (q.events t).lt (q.events b.1))
    (hnd : (t :: (r ++ content post)).Nodup) : Bins q (some t) ((t, r) :: post) where
  tops := ⟨rfl, h.tops⟩
  stack := by
    rintro b (_ | ⟨_, hb⟩)
    · exact hr
    · exact h.stack b hb
  same := by
    rintro b (_ | ⟨_, hb⟩)
    · exact hsame
    · exact h.same b hb
  sorted := pairwise_cons.mpr ⟨hlt, h.sorted⟩
  nodup := by rwa [content_cons]

theorem head_eq (h : Bins q p bins) : p = bins.head?.map Prod.fst := by
  rw [h.tops.head_eq, List.head?_map]

theorem suffix (h : Bins q p (pre ++ post)) : Bins q (post.head?.map Prod.fst) post := by
  cases post with
  | nil => exact ⟨rfl, by simp, by simp, List.Pairwise.nil, nodup_nil⟩
  | cons b post =>
    refine ⟨⟨rfl, h.drop.tops⟩, fun b' hb => h.stack b' (mem_append_right _ hb), fun b' hb => h.same
      b' (mem_append_right _ hb), (pairwise_append.mp h.sorted).2.1, ?_⟩
    have := h.nodup
    rw [content_append] at this
    exact (nodup_append.mp this).2.1

theorem frame {l : List Nat} (h : Bins q p bins) (hq : SameOutside l q q')
    (hl : List.Disjoint (content bins) l) : Bins q' p bins := by
  apply h.congr
  · simp [hq.events]
  · exact fun e he => hq.nextBin e fun h => hl he h
  · exact fun e he => hq.nextInBin e fun h => hl he h

/-- **Linking.**  The write of `nextBin` of the top of `b` puts the bins `post'` behind it. -/
theorem link {l : List Nat} (h : Bins q p (pre ++ b :: post)) (hq : SameOutside l q q')
    (hl : List.Disjoint (content (pre ++ [b])) l) (h' : Bins q' v post')
    (hlt : ∀ c ∈ pre ++ [b], ∀ c' ∈ post', (q.events c.1).lt (q.events c'.1))
    (hdisj : List.Disjoint (content (pre ++ [b])) (content post')) :
    Bins (q'.setNextBin b.1 v) p (pre ++ b :: post') := by
  have hsplit : ∀ bins, pre ++ b :: bins = (pre ++ [b]) ++ bins := by simp
  have hnd := h.nodup
  rw [hsplit, content_append] at hnd
  have hnd' := (nodup_append.mp hnd).1
  have hmem : ∀ c ∈ pre ++ [b], c ∈ pre ++ b :: post := fun c hc => by
    rw [hsplit]
    exact mem_append_left _ hc
  have hout : ∀ c ∈ pre ++ [b], ∀ e, e = c.1 ∨ e ∈ c.2 → e ∉ l := fun c hc e he =>
    hl (mem_content.mpr ⟨c, hc, he⟩)
  have hb : b ∈ pre ++ [b] := mem_append_right _ (mem_singleton_self b)
  refine ⟨?_, fun c hc => ?_, fun c hc => ?_, ?_, ?_⟩
  · show Linked (update q'.nextBin b.1 v) p _
    have htops := h.tops
    rw [map_append, map_cons] at htops ⊢
    apply htops.update_tail
    · intro e he
      obtain ⟨c, hc, rfl⟩ := mem_map.mp he
      exact hq.nextBin _ (hout c (mem_append_left _ hc) c.1 (.inl rfl))
    · -- the top of `b` is no other top before it
      intro hbm
      obtain ⟨c, hc, heq⟩ := mem_map.mp hbm
      rw [content_append] at hnd'
      exact (nodup_append.mp hnd').2.2 c.1 (top_mem_content hc) b.1
        (top_mem_content (mem_singleton_self b)) heq
    · intro hbm
      obtain ⟨c, hc, heq⟩ := mem_map.mp hbm
      exact hdisj (top_mem_content hb) (heq ▸ top_mem_content hc)
    · exact h'.tops
  · show Linked q'.nextInBin (q'.nextInBin c.1) c.2
    rw [hsplit] at hc
    rcases mem_append.mp hc with hc | hc
    · rw [hq.nextInBin _ (hout c hc c.1 (.inl rfl))]
      exact (h.stack c (hmem c hc)).congr fun e he => hq.nextInBin e (hout c hc e (.inr he))
    · exact h'.stack c hc
  · show ∀ e ∈ c.2, (q'.events e).eq (q'.events c.1)
    rw [hsplit] at hc
    rcases mem_append.mp hc with hc | hc
    · rw [hq.events]
      exact h.same c (hmem c hc)
    · exact h'.same c hc
  · show (pre ++ b :: post').Pairwise fun c c' => (q'.events c.1).lt (q'.events c'.1)
    have hsorted := h.sorted
    have hsorted' := h'.sorted
    rw [hsplit] at hsorted ⊢
    rw [hq.events] at hsorted' ⊢
    exact pairwise_append.mpr ⟨(pairwise_append.mp hsorted).1, hsorted', hlt⟩
  · rw [hsplit, content_append]
    exact nodup_append.mpr ⟨hnd', h'.nodup, fun e he e' he' heq => hdisj he (heq ▸ he')⟩

end Bins

def push (events : Nat → Event) (event : Nat) : List (Nat × List Nat) → List (Nat × List Nat)
  | [] => [(event, [])]
  | b :: post =>
    if (events event).lt (events b.1) then (event, []) :: b :: post
    else (event, b.1 :: b.2) :: post

@[simp] theorem content_push (events : Nat → Event) (event : Nat) (bins : List (Nat × List Nat)) :
    content (push events event bins) = event :: content bins := by
  cases bins with
  | nil => rfl
  | cons b post =>
    rw [push]
    split_ifs <;> simp

theorem mem_push {events : Nat → Event} {event : Nat} {bins : List (Nat × List Nat)}
    {b : Nat × List Nat} (h : b ∈ push events event bins) : b.1 = event ∨ b ∈ bins := by
  cases bins with
  | nil =>
    rw [mem_singleton.mp h]
    exact .inl rfl
  | cons c post =>
    rw [push] at h
    split_ifs at h
    · rcases mem_cons.mp h with rfl | h
      · exact .inl rfl
      · exact .inr h
    · rcases mem_cons.mp h with rfl | h
      · exact .inl rfl
      · exact .inr (mem_cons_of_mem _ h)

def pop (event : Nat) (b : Nat × List Nat) (post : List (Nat × List Nat)) : List (Nat × List Nat) :=
  if event = b.1 then
    match b.2 with
    | [] => post
    | n :: r => (n, r) :: post
  else (b.1, b.2.erase event) :: post

theorem content_pop {event : Nat} {b : Nat × List Nat} (h : event = b.1 ∨ event ∈ b.2)
    (post : List (Nat × List Nat)) :
    content (pop event b post) = (content (b :: post)).erase event := by
  obtain ⟨t, r⟩ := b
  rw [content_cons]
  by_cases ht : event = t
  · subst ht
    rw [erase_cons_head]
    cases r <;> simp [pop]
  · rw [erase_cons_tail (by simpa using Ne.symm ht), erase_append_left _ (h.resolve_left ht)]
    simp [pop, ht]

theorem insertBefore_sameOutside (q : EventQueue) (event : Nat) (curr : Option Nat) :
    SameOutside [event] q (q.insertBefore event curr) := by
  have hne : ∀ e, e ∉ [event] → e ≠ event := fun e he => ne_of_not_mem_cons he
  unfold insertBefore
  split
  · exact ⟨rfl, rfl, rfl, fun e he => update_of_ne (hne e he) ..,
      fun e he => update_of_ne (hne e he) ..⟩
  · split
    all_goals
      exact ⟨rfl, rfl, rfl, fun e he => update_of_ne (hne e he) ..,
        fun e he => update_of_ne (hne e he) ..⟩

@[simp] theorem insertBefore_events (q : EventQueue) (event : Nat) (curr : Option Nat) :
    (q.insertBefore event curr).events = q.events :=
  (insertBefore_sameOutside q event curr).events

variable {q : EventQueue} {p : Option Nat} {bins pre post : List (Nat × List Nat)}
  {b : Nat × List Nat} {event fuel : Nat}

theorem Bins.key_eq (h : Bins q p bins) (hb : b ∈ bins) {e : Nat} (he : e = b.1 ∨ e ∈ b.2) :
    (q.events e).eq (q.events b.1) := by
  rcases he with rfl | he
  · exact ⟨rfl, rfl⟩
  · exact h.same b hb e he

theorem Bins.insertBefore (h : Bins q p bins) (hnew : event ∉ content bins)
    (hge : ∀ b ∈ bins, ¬ (q.events b.1).lt (q.events event)) :
    Bins (q.insertBefore event p) (some event) (push q.events event bins) := by
  have hframe := h.frame (insertBefore_sameOutside q event p) (by simpa using hnew)
  have hnd : (event :: content bins).Nodup := nodup_cons.mpr ⟨hnew, h.nodup⟩
  cases bins with
  | nil =>
    obtain rfl : p = none := h.tops
    apply Bins.cons
    · simpa [EventQueue.insertBefore, setNextBin, setNextInBin] using hframe
    · simp [EventQueue.insertBefore, setNextBin, setNextInBin]
    · simp
    · simp
    · exact hnd
  | cons b post =>
    obtain rfl : p = some b.1 := h.tops.1
    have hfirst := (pairwise_cons.mp h.sorted).1
    have hbge := le_iff_not_lt.mpr (hge b (mem_cons_self ..))
    by_cases hlt : (q.events event).lt (q.events b.1)
    · -- a bin of its own
      have hself : (q.insertBefore event (some b.1)).nextBin event = some b.1 := by
        simp [EventQueue.insertBefore, hlt, setNextBin, setNextInBin]
      have hin : (q.insertBefore event (some b.1)).nextInBin event = none := by
        simp [EventQueue.insertBefore, hlt, setNextInBin]
      rw [push, if_pos hlt]
      apply Bins.cons
      · rwa [hself]
      · exact hin
      · simp
      · intro c hc
        rw [insertBefore_events]
        rcases mem_cons.mp hc with rfl | hc
        · exact hlt
        · exact lt_of_lt_of_le hlt (le_of_lt (hfirst c hc))
      · exact hnd
    · -- on top of the first bin
      have heq : (q.events b.1).eq (q.events event) :=
        eq_iff.mpr ⟨le_iff_not_lt.mpr hlt, hbge⟩
      have hself : (q.insertBefore event (some b.1)).nextBin event = q.nextBin b.1 := by
        simp [EventQueue.insertBefore, hlt, setNextBin, setNextInBin]
      have hin : (q.insertBefore event (some b.1)).nextInBin event = some b.1 := by
        simp [EventQueue.insertBefore, hlt, setNextInBin]
      have hne : b.1 ≠ event := fun heq => hnew (heq ▸ top_mem_content (mem_cons_self ..))
      rw [push, if_neg hlt]
      apply Bins.cons
      · rw [hself, ← (insertBefore_sameOutside q event (some b.1)).nextBin b.1 (by simpa using hne)]
        exact hframe.tail
      · exact ⟨hin, hframe.stack b (mem_cons_self ..)⟩
      · intro e he
        rw [insertBefore_events]
        have hkey := h.key_eq (mem_cons_self ..) (mem_cons.mp he)
        exact ⟨hkey.1.trans heq.1, hkey.2.trans heq.2⟩
      · intro c hc
        have hlt := hfirst c hc
        rw [insertBefore_events]
        unfold lt at *
        rwa [← heq.1, ← heq.2]
      · rwa [content_cons] at hnd

theorem seek_eq {h : Nat} (htops : Linked q.nextBin (some h) ((pre ++ b :: post).map Prod.fst))
    (hlt : ∀ c ∈ pre ++ [b], (q.events c.1).lt (q.events event))
    (hge : ∀ c ∈ post, ¬ (q.events c.1).lt (q.events event)) (hf : pre.length < fuel) :
    q.seek event fuel h (q.nextBin h) = .ok (b.1, post.head?.map Prod.fst) := by
  induction pre generalizing h fuel with
  | nil =>
    obtain ⟨fuel, rfl⟩ := exists_eq_succ_of_ne_zero (Nat.ne_zero_of_lt hf)
    obtain ⟨hb, hrest⟩ := htops
    obtain rfl : h = b.1 := Option.some.inj hb
    cases post with
    | nil =>
      rw [show q.nextBin b.1 = none from hrest]
      rfl
    | cons c post =>
      rw [show q.nextBin b.1 = some c.1 from hrest.1, seek]
      rw [if_neg (hge c (mem_cons_self ..))]
      rfl
  | cons c pre ih =>
    obtain ⟨fuel, rfl⟩ := exists_eq_succ_of_ne_zero (Nat.ne_zero_of_lt hf)
    obtain ⟨hc, hrest⟩ := htops
    obtain rfl : h = c.1 := Option.some.inj hc
    have hnext : ∃ d ∈ pre ++ [b], q.nextBin c.1 = some d.1 := by
      cases pre with
      | nil => exact ⟨b, mem_singleton_self b, hrest.1⟩
      | cons d pre => exact ⟨d, mem_append_left _ (mem_cons_self ..), hrest.1⟩
    obtain ⟨d, hd, hnext⟩ := hnext
    rw [hnext] at hrest
    rw [hnext, seek, if_pos (hlt d (mem_cons_of_mem _ hd))]
    exact ih hrest (fun c hc => hlt c (mem_cons_of_mem _ hc)) (lt_of_succ_lt_succ hf)

theorem Bins.seek_head (fuel : Nat) (h : Bins q q.head (pre ++ b :: post))
    (hlt : ∀ c ∈ pre ++ [b], (q.events c.1).lt (q.events event))
    (hge : ∀ c ∈ post, ¬ (q.events c.1).lt (q.events event)) (hf : pre.length < fuel) :
    ∃ c ∈ pre ++ [b], q.head = some c.1 ∧
      q.seek event fuel c.1 (q.nextBin c.1) = .ok (b.1, post.head?.map Prod.fst) := by
  obtain ⟨c, hc, hhead⟩ : ∃ c ∈ pre ++ [b], q.head = some c.1 := by
    cases pre with
    | nil => exact ⟨b, mem_singleton_self b, h.head_eq⟩
    | cons c pre => exact ⟨c, mem_append_left _ (mem_cons_self ..), h.head_eq⟩
  have htops := h.tops
  rw [hhead] at htops
  exact ⟨c, hc, hhead, seek_eq htops hlt hge hf⟩

theorem Bins.exists_split (h : Bins q p bins) (event : Nat) :
    ∃ pre post, bins = pre ++ post ∧ (∀ b ∈ pre, (q.events b.1).lt (q.events event)) ∧
      ∀ b ∈ post, ¬ (q.events b.1).lt (q.events event) := by
  have hsorted := h.sorted
  clear h
  induction bins with
  | nil => exact ⟨[], [], rfl, by simp, by simp⟩
  | cons b bins ih =>
    obtain ⟨hfirst, hrest⟩ := pairwise_cons.mp hsorted
    by_cases hlt : (q.events b.1).lt (q.events event)
    · obtain ⟨pre, post, rfl, hpre, hpost⟩ := ih hrest
      refine ⟨b :: pre, post, rfl, fun c hc => ?_, hpost⟩
      rcases mem_cons.mp hc with rfl | hc
      · exact hlt
      · exact hpre c hc
    · refine ⟨[], b :: bins, rfl, by simp, fun c hc hclt => ?_⟩
      rcases mem_cons.mp hc with rfl | hc
      · exact hlt hclt
      · exact hlt (lt_of_lt_of_le (hfirst c hc) (le_of_lt hclt))

theorem Bins.orderedInsert_content (h : Bins q p (pre ++ post))
    (hpre : ∀ b ∈ pre, (q.events b.1).lt (q.events event))
    (hpost : ∀ b ∈ post, ¬ (q.events b.1).lt (q.events event)) :
    (content (pre ++ post)).orderedInsert (Before q.events) event =
      content pre ++ event :: content post := by
  have hnot : ∀ e ∈ content pre, ¬ Before q.events event e := by
    intro e he hle
    obtain ⟨b, hb, he⟩ := mem_content.mp he
    have hkey := eq_iff.mp (h.key_eq (mem_append_left _ hb) he)
    exact le_iff_not_lt.mp (le_trans hle hkey.1) (hpre b hb)
  rw [content_append]
  generalize content pre = l at hnot
  induction l with
  | nil =>
    cases post with
    | nil => rfl
    | cons b post =>
      rw [nil_append, content_cons, orderedInsert, if_pos]
      · rfl
      · exact le_iff_not_lt.mpr (hpost b (mem_cons_self ..))
  | cons e l ih =>
    rw [cons_append, orderedInsert, if_neg (hnot e (mem_cons_self ..)),
      ih fun e' he' => hnot e' (mem_cons_of_mem _ he')]
    rfl

theorem insert_bins (h : Bins q q.head bins) (hnew : event ∉ content bins)
    (hf : bins.length ≤ fuel) :
    ∃ q', q.insert fuel event = .ok q' ∧ q'.events = q.events ∧ q'.curTick = q.curTick ∧
      ∃ bins', Bins q' q'.head bins' ∧
        content bins' = (content bins).orderedInsert (Before q.events) event := by
  obtain ⟨pre, post, rfl, hpre, hpost⟩ := h.exists_split event
  have hdisj : List.Disjoint (content pre) (content post) := by
    have := h.nodup
    rw [content_append] at this
    exact disjoint_of_nodup_append this
  rw [content_append, mem_append, not_or] at hnew
  rw [h.orderedInsert_content hpre hpost]
  have hfront := h.suffix.insertBefore hnew.2 hpost
  -- `insert` writes `head` when the event comes first and `nextBin` of the last bin otherwise
  rcases eq_nil_or_concat pre with rfl | ⟨pre, b, rfl⟩
  · refine ⟨{ q.insertBefore event q.head with head := some event }, ?_, insertBefore_events ..,
      (insertBefore_sameOutside ..).curTick, push q.events event post, ?_, content_push ..⟩
    · rw [nil_append] at h
      have hhead := h.head_eq
      unfold EventQueue.insert
      cases post with
      | nil => rw [hhead]; rfl
      | cons c post =>
        rw [hhead]
        have hle := le_iff_not_lt.mpr (hpost c (mem_cons_self ..))
        simp only [List.head?_cons, Option.map_some]
        rw [if_pos hle]
        rfl
    · rw [nil_append] at h
      rw [← h.head_eq] at hfront
      exact hfront.congr (fun _ _ => ⟨rfl, rfl⟩) (fun _ _ => rfl) fun _ _ => rfl
  · rw [concat_eq_append, append_assoc, singleton_append] at h
    rw [concat_eq_append] at *
    refine ⟨(q.insertBefore event (post.head?.map Prod.fst)).setNextBin b.1 (some event), ?_,
      insertBefore_events .., (insertBefore_sameOutside ..).curTick, pre ++ b :: push q.events event post, ?_, ?_⟩
    · obtain ⟨c, hc, hhead, hseek⟩ := h.seek_head fuel hpre hpost (by
        simp only [length_append, length_singleton] at hf
        omega)
      unfold EventQueue.insert
      simp only [hhead]
      rw [if_neg fun hle => le_iff_not_lt.mp hle (hpre c hc), hseek]
      rfl
    · have hsame := insertBefore_sameOutside q event (post.head?.map Prod.fst)
      show Bins _ (q.insertBefore event (post.head?.map Prod.fst)).head _
      rw [hsame.head]
      apply h.link hsame (by simpa using hnew.1) hfront
      · intro c hc c' hc'
        rcases mem_push hc' with heq | hc'
        · rw [heq]
          exact hpre c hc
        · have hle := le_iff_not_lt.mpr (hpost c' hc')
          exact lt_of_lt_of_le (hpre c hc) hle
      · intro e he he'
        rw [content_push] at he'
        rcases mem_cons.mp he' with rfl | he'
        · exact hnew.1 he
        · exact hdisj he he'
    · simp
theorem seekInBin_eq {t : Nat} {r : List Nat} (hr : Linked q.nextInBin (q.nextInBin t) r)
    (hmem : event ∈ r) (hf : r.length ≤ fuel) :
    ∃ l₁ curr l₂, t :: r = l₁ ++ curr :: event :: l₂ ∧
      q.seekInBin event fuel t (q.nextInBin t) = .ok curr := by
  induction r generalizing t fuel with
  | nil => exact absurd hmem (not_mem_nil)
  | cons n r ih =>
    obtain ⟨fuel, rfl⟩ := exists_eq_succ_of_ne_zero (Nat.ne_zero_of_lt hf)
    obtain ⟨hn, hrest⟩ := hr
    rw [hn, seekInBin]
    by_cases heq : event = n
    · subst heq
      rw [if_pos rfl]
      exact ⟨[], t, r, rfl, rfl⟩
    · rw [if_neg heq]
      have hmem' := (mem_cons.mp hmem).resolve_left heq
      obtain ⟨l₁, curr, l₂, hsplit, hseek⟩ := ih hrest hmem' (le_of_succ_le_succ hf)
      exact ⟨t :: l₁, curr, l₂, by rw [hsplit]; rfl, hseek⟩

theorem Bins.pop_top (h : Bins q p (b :: post)) : match q.nextInBin b.1 with
    | none => Bins q (q.nextBin b.1) (pop b.1 b post)
    | some next => next ∈ b.2 ∧
        Bins (q.setNextBin next (q.nextBin b.1)) (some next) (pop b.1 b post) := by
  obtain ⟨t, r⟩ := b
  have hstack := h.stack _ (mem_cons_self ..)
  have hrest : Bins q (q.nextBin t) post := h.tail
  cases r with
  | nil =>
    rw [show q.nextInBin t = none from hstack]
    simpa [pop] using hrest
  | cons n r =>
    obtain ⟨hn, hr⟩ := hstack
    have hnd := h.nodup
    rw [content_cons] at hnd
    have hnd' := (nodup_cons.mp hnd).2
    have hkey := h.same _ (mem_cons_self ..)
    have htop := hkey n (mem_cons_self ..)
    simp only [hn, pop, if_true]
    refine ⟨mem_cons_self .., ?_⟩
    apply Bins.cons
    · rw [show (q.setNextBin n (q.nextBin t)).nextBin n = q.nextBin t from update_self ..]
      apply hrest.congr
      · exact fun _ _ => ⟨rfl, rfl⟩
      · intro e he
        apply update_of_ne
        rintro rfl
        exact (nodup_cons.mp hnd').1 (mem_append_right _ he)
      · exact fun _ _ => rfl
    · exact hr
    · intro e he
      have := hkey e (mem_cons_of_mem _ he)
      exact ⟨this.1.trans htop.1.symm, this.2.trans htop.2.symm⟩
    · intro c hc
      have hlt := (pairwise_cons.mp h.sorted).1 c hc
      show (q.events n).lt (q.events c.1)
      unfold lt at *
      rwa [htop.1, htop.2]
    · exact hnd'

theorem Bins.removeItem (fuel : Nat) (h : Bins q p (b :: post)) (hmem : event = b.1 ∨ event ∈ b.2)
    (hf : b.2.length ≤ fuel) :
    ∃ q' v, q.removeItem fuel event b.1 = .ok (q', v) ∧ SameOutside (b.1 :: b.2) q q' ∧
      Bins q' v (pop event b post) := by
  unfold EventQueue.removeItem
  by_cases heq : event = b.1
  · subst heq
    have hpop := h.pop_top
    rw [if_pos rfl]
    cases hn : q.nextInBin b.1 with
    | none =>
      rw [hn] at hpop
      exact ⟨q, q.nextBin b.1, rfl, ⟨rfl, rfl, rfl, fun _ _ => rfl, fun _ _ => rfl⟩, hpop⟩
    | some n =>
      rw [hn] at hpop
      refine ⟨_, some n, rfl, ⟨rfl, rfl, rfl, fun e he => ?_, fun _ _ => rfl⟩, hpop.2⟩
      apply update_of_ne
      rintro rfl
      exact he (mem_cons_of_mem _ hpop.1)
  · obtain ⟨t, r⟩ := b
    have hmem' : event ∈ r := hmem.resolve_left heq
    have hstack := h.stack _ (mem_cons_self ..)
    obtain ⟨l₁, curr, l₂, hsplit, hseek⟩ := seekInBin_eq hstack hmem' hf
    rw [if_neg heq, hseek]
    have hnd := h.nodup
    rw [content_cons] at hnd
    have hbin : (t :: r).Nodup := by
      rw [← cons_append] at hnd
      exact (nodup_append.mp hnd).1
    have hcurr : curr ∈ t :: r := by simp [hsplit]
    -- the bin as one list, from its top on
    have hlinked : Linked q.nextInBin (some t) (l₁ ++ curr :: event :: l₂) := by
      rw [← hsplit]
      exact ⟨rfl, hstack⟩
    have hev : event ∉ l₁ ∧ event ≠ curr ∧ event ∉ l₂ ∧ curr ∉ l₁ ∧ curr ∉ l₂ := by
      rw [hsplit] at hbin
      simp only [nodup_append, nodup_cons, mem_cons] at hbin
      grind
    have herase : t :: r.erase event = l₁ ++ curr :: l₂ := by
      have : (t :: r).erase event = t :: r.erase event :=
        erase_cons_tail (by simpa using Ne.symm heq)
      rw [← this, hsplit, erase_append_right _ hev.1,
        erase_cons_tail (by simpa using hev.2.1.symm), erase_cons_head]
    have hlinked' : Linked (q.setNextInBin curr (q.nextInBin event)).nextInBin (some t)
        (t :: r.erase event) := by
      rw [herase]
      apply hlinked.update_tail fun _ _ => rfl
      · exact hev.2.2.2.1
      · exact hev.2.2.2.2
      · rw [← singleton_append, ← append_assoc] at hlinked
        exact hlinked.drop
    refine ⟨_, some t, rfl, ⟨rfl, rfl, rfl, fun _ _ => rfl, fun e he => ?_⟩, ?_⟩
    · apply update_of_ne
      rintro rfl
      exact he hcurr
    · rw [pop, if_neg heq]
      apply Bins.cons
      · apply h.tail.congr
        · exact fun _ _ => ⟨rfl, rfl⟩
        · exact fun _ _ => rfl
        · intro e he
          apply update_of_ne
          rintro rfl
          rw [← cons_append] at hnd
          exact (nodup_append.mp hnd).2.2 e hcurr e he rfl
      · exact hlinked'.2
      · exact fun e he => h.same _ (mem_cons_self ..) e (mem_of_mem_erase he)
      · exact (pairwise_cons.mp h.sorted).1
      · refine List.Nodup.sublist ?_ hnd
        exact ((erase_sublist ..).append_right _).cons_cons _

theorem Bins.exists_bin (h : Bins q p bins) (hmem : event ∈ content bins) :
    ∃ pre b post, bins = pre ++ b :: post ∧ (event = b.1 ∨ event ∈ b.2) ∧
      (q.events b.1).eq (q.events event) ∧ event ∉ content pre ∧
      ∀ c ∈ pre, (q.events c.1).lt (q.events event) := by
  obtain ⟨b, hb, he⟩ := mem_content.mp hmem
  have hkey := h.key_eq hb he
  obtain ⟨pre, post, rfl⟩ := append_of_mem hb
  refine ⟨pre, b, post, rfl, he, ⟨hkey.1.symm, hkey.2.symm⟩, fun hpre => ?_, fun c hc => ?_⟩
  · have hnd := h.nodup
    rw [content_append] at hnd
    exact disjoint_of_nodup_append hnd hpre (mem_content.mpr ⟨b, mem_cons_self .., he⟩)
  · have hlt := (pairwise_append.mp h.sorted).2.2 c hc b (mem_cons_self ..)
    unfold lt at *
    rwa [hkey.1, hkey.2]

theorem Bins.le_of_mem_pop (h : Bins q p (b :: post)) {c : Nat × List Nat}
    (hc : c ∈ pop event b post) : (q.events b.1).le (q.events c.1) := by
  have hpost : ∀ c ∈ post, (q.events b.1).le (q.events c.1) := fun c hc =>
    le_of_lt ((pairwise_cons.mp h.sorted).1 c hc)
  unfold pop at hc
  obtain ⟨t, r⟩ := b
  split_ifs at hc
  · cases r with
    | nil => exact hpost c hc
    | cons n r =>
      rcases mem_cons.mp hc with rfl | hc
      · have hkey := h.same _ (mem_cons_self ..) n (mem_cons_self ..)
        exact (eq_iff.mp hkey).2
      · exact hpost c hc
  · rcases mem_cons.mp hc with rfl | hc
    · exact (eq_iff.mp ⟨rfl, rfl⟩).1
    · exact hpost c hc

theorem remove_bins (h : Bins q q.head bins) (hmem : event ∈ content bins)
    (hon : (q.events event).onQueue = true) (hf : (content bins).length ≤ fuel) :
    ∃ q', q.remove fuel event = .ok q' ∧ q'.events = q.events ∧ q'.curTick = q.curTick ∧
      ∃ bins', Bins q' q'.head bins' ∧ content bins' = (content bins).erase event := by
  obtain ⟨pre, b, post, rfl, hb, hkey, hnot, hpre⟩ := h.exists_bin hmem
  have hlen : pre.length + b.2.length < fuel := by
    have := length_le_length_content pre
    simp only [content_append, content_cons, length_append, length_cons] at hf
    omega
  have hsuffix := h.suffix
  obtain ⟨q₁, v, hitem, hsame, hpop⟩ := hsuffix.removeItem fuel hb (by omega)
  have herase : content (pre ++ pop event b post) = (content (pre ++ b :: post)).erase event := by
    rw [content_append, content_append, content_pop hb, erase_append_right _ hnot]
  unfold EventQueue.remove
  rcases eq_nil_or_concat pre with rfl | ⟨pre, d, rfl⟩
  · have hhead : q.head = some b.1 := h.head_eq
    refine ⟨{ q₁ with head := v }, ?_, hsame.events, hsame.curTick, _, ?_, herase⟩
    · simp only [hhead, hon, require, if_true]
      rw [if_pos hkey, hitem]
      rfl
    · exact hpop.congr (fun _ _ => ⟨rfl, rfl⟩) (fun _ _ => rfl) fun _ _ => rfl
  · rw [concat_eq_append] at *
    rw [append_assoc, singleton_append] at h
    have hge : ∀ c ∈ b :: post, ¬ (q.events c.1).lt (q.events event) := by
      intro c hc
      apply le_iff_not_lt.mp
      have hle := (eq_iff.mp hkey).2
      rcases mem_cons.mp hc with rfl | hc
      · exact hle
      · have hlt := (pairwise_cons.mp hsuffix.sorted).1 c hc
        exact le_trans hle (le_of_lt hlt)
    obtain ⟨c, hc, hhead, hseek⟩ := h.seek_head fuel hpre hge (by
      simp only [length_append, length_singleton] at hlen
      omega)
    have hne : ¬ (q.events c.1).eq (q.events event) := by
      intro heq
      exact le_iff_not_lt.mp (eq_iff.mp heq).2 (hpre c hc)
    have hdisj : List.Disjoint (content (pre ++ [d])) (content (b :: post)) := by
      have hnd := h.nodup
      rw [show pre ++ d :: b :: post = (pre ++ [d]) ++ b :: post by simp, content_append] at hnd
      exact disjoint_of_nodup_append hnd
    refine ⟨q₁.setNextBin d.1 v, ?_, hsame.events, hsame.curTick, pre ++ d :: pop event b post, ?_,
      ?_⟩
    · simp [hhead, hon, require, hne, hseek, hkey, hitem, bind, Except.bind, pure, Except.pure]
    · show Bins _ q₁.head _
      rw [hsame.head]
      apply h.link hsame ?_ hpop
      · intro c hc c' hc'
        have hle := hsuffix.le_of_mem_pop hc'
        exact lt_of_lt_of_le (hpre c hc) (le_trans (eq_iff.mp hkey).2 hle)
      · intro e he he'
        rw [content_pop hb] at he'
        exact hdisj he (mem_of_mem_erase he')
      · intro e he he'
        exact hdisj he (by
          rw [content_cons, ← cons_append]
          exact mem_append_left _ he')
    · rw [← herase]
      simp

def Holds (q : EventQueue) (l : List Nat) : Prop :=
  ∃ bins, Bins q q.head bins ∧ content bins = l

variable {l : List Nat}

theorem Holds.head_eq (h : Holds q l) : q.head = l.head? := by
  obtain ⟨bins, hbins, rfl⟩ := h
  rw [hbins.head_eq]
  cases bins with
  | nil => rfl
  | cons b bins => rw [content_cons]; rfl

theorem Holds.modify (event : Nat) {f : Event → Event} (h : Holds q l)
    (hf : event ∈ l → (f (q.events event)).when = (q.events event).when ∧
      (f (q.events event)).priority = (q.events event).priority) :
    Holds (q.modify event f) l := by
  obtain ⟨bins, hbins, rfl⟩ := h
  refine ⟨bins, hbins.congr (fun e he => ?_) (fun _ _ => rfl) fun _ _ => rfl, rfl⟩
  unfold EventQueue.modify
  by_cases heq : e = event
  · subst heq
    simpa using hf he
  · simp [update_of_ne heq]

theorem Holds.insert (h : Holds q l) (hnew : event ∉ l) (hf : l.length ≤ fuel) :
    ∃ q', q.insert fuel event = .ok q' ∧ q'.events = q.events ∧ q'.curTick = q.curTick ∧
      Holds q' (l.orderedInsert (Before q.events) event) := by
  obtain ⟨bins, hbins, rfl⟩ := h
  exact insert_bins hbins hnew ((length_le_length_content bins).trans hf)

theorem Holds.remove (h : Holds q l) (hmem : event ∈ l) (hon : (q.events event).onQueue = true)
    (hf : l.length ≤ fuel) :
    ∃ q', q.remove fuel event = .ok q' ∧ q'.events = q.events ∧ q'.curTick = q.curTick ∧
      Holds q' (l.erase event) := by
  obtain ⟨bins, hbins, rfl⟩ := h
  exact remove_bins hbins hmem hon hf

theorem Holds.popHead (h : Holds q (event :: l)) :
    Holds (q.popHead event) l ∧ (q.popHead event).events = q.events ∧
      (q.popHead event).curTick = q.curTick := by
  obtain ⟨bins, hbins, hl⟩ := h
  cases bins with
  | nil => cases hl
  | cons b bins =>
    rw [content_cons] at hl
    obtain ⟨rfl, rfl⟩ := List.cons.inj hl
    have hpop := hbins.pop_top
    have hcontent : content (pop b.1 b bins) = b.2 ++ content bins := by
      rw [content_pop (.inl rfl), content_cons, erase_cons_head]
    unfold EventQueue.popHead
    cases hn : q.nextInBin b.1 with
    | none =>
      rw [hn] at hpop
      exact ⟨⟨_, hpop.congr (fun _ _ => ⟨rfl, rfl⟩) (fun _ _ => rfl) fun _ _ => rfl, hcontent⟩, rfl,
        rfl⟩
    | some n =>
      rw [hn] at hpop
      exact ⟨⟨_, hpop.2.congr (fun _ _ => ⟨rfl, rfl⟩) (fun _ _ => rfl) fun _ _ => rfl, hcontent⟩,
        rfl, rfl⟩

end EventQueue

end NocSwap.Sim
