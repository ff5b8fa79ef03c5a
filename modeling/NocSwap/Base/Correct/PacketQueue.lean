import Mathlib.Data.List.Induction
import NocSwap.Base.PacketQueue

/-!
# The order of a packet queue
-/

namespace NocSwap.Base.PacketQueue

open List Option

variable {q q' : PacketQueue} {l : List DeferredPacket} {when addr i : Nat} {p : DeferredPacket}

def Earlier (p p' : DeferredPacket) : Prop :=
  p.tick < p'.tick ∨ p.tick = p'.tick ∧ p.pkt < p'.pkt

theorem Earlier.le {p' : DeferredPacket} (h : Earlier p p') : p.tick ≤ p'.tick := by
  rcases h with h | h
  · exact Nat.le_of_lt h
  · exact Nat.le_of_eq h.1

structure Ordered (q : PacketQueue) : Prop where
  sorted : q.transmitList.Pairwise Earlier
  event : q.transmitList ≠ [] → q.waitingOnRetry = true ∨ ∃ p ∈ q.transmitList,
    (∀ p' ∈ q.transmitList, p.tick ≤ p'.tick) ∧ ∃ w ∈ q.sendEvent, w ≤ max p.tick (q.changed + 1)

def InOrder (q : PacketQueue) : Op → Prop
  | .schedSendTiming _ when => ∀ p ∈ q.transmitList.head?, p.tick ≤ when
  | _ => True

theorem searchBack_spec (l : List DeferredPacket) (when addr : Nat) (hi : i < l.length) :
    let k := searchBack l when addr false i
    k ≤ i ∧ (∀ j, k < j → j ≤ i → ∀ p ∈ l[j]?, when < p.tick) ∧
      (k = 0 ∨ ∀ p ∈ l[k]?, p.tick ≤ when) := by
  induction i with
  | zero =>
    refine ⟨Nat.le_refl 0, fun j hj hj' => ?_, .inl rfl⟩
    exact absurd (Nat.lt_of_lt_of_le hj hj') (Nat.lt_irrefl _)
  | succ i ih =>
    obtain ⟨hle, hafter, hstop⟩ := ih (by omega)
    have hget := getElem?_eq_getElem hi
    unfold searchBack
    rw [hget]
    by_cases hlt : when < l[i + 1].tick
    · simp only [hlt, decide_true, Bool.false_and, Bool.not_false, Bool.and_self, if_true]
      refine ⟨by omega, fun j hj hj' p hp => ?_, hstop⟩
      rcases Nat.lt_or_ge i j with hij | hij
      · obtain rfl : j = i + 1 := by omega
        rw [hget] at hp
        cases hp
        exact hlt
      · exact hafter j hj hij p hp
    · simp only [hlt, decide_false, Bool.false_and, Bool.false_eq_true, if_false]
      refine ⟨Nat.le_refl _, fun j hj hj' => ?_, .inr fun p hp => ?_⟩
      · exact absurd (Nat.lt_of_lt_of_le hj hj') (Nat.lt_irrefl _)
      · rw [hget] at hp
        cases hp
        omega

/-- Where the search ends every packet behind is due later, and none before but perhaps the first.
-/
theorem searchBack_split (when addr : Nat) (hsorted : l.Pairwise Earlier) (hne : l ≠ []) :
    let k := searchBack l when addr false (l.length - 1)
    (∀ p ∈ l.drop (k + 1), when < p.tick) ∧
      ∀ p ∈ l.take (k + 1), l.head? = some p ∨ p.tick ≤ when := by
  intro k
  have hlen := length_pos_of_ne_nil hne
  obtain ⟨hle, hafter, hstop⟩ := searchBack_spec l when addr (i := l.length - 1) (by omega)
  constructor
  · intro p hp
    obtain ⟨j, hj⟩ := mem_iff_getElem?.mp hp
    rw [getElem?_drop] at hj
    have hlt := (List.getElem?_eq_some_iff.mp hj).1
    exact hafter (k + 1 + j) (by omega) (by omega) p hj
  · intro p hp
    obtain ⟨j, hj⟩ := mem_iff_getElem?.mp hp
    obtain ⟨hjk, hj⟩ : j < k + 1 ∧ l[j]? = some p := by
      simpa [getElem?_take] using hj
    rcases Nat.eq_zero_or_pos j with rfl | hpos
    · exact .inl (by rw [head?_eq_getElem?, hj])
    · have hk : k < l.length := by omega
      have hk₀ : k ≠ 0 := by omega
      have hbound := hstop.resolve_left hk₀ _ (getElem?_eq_getElem hk)
      obtain ⟨hjl, rfl⟩ := List.getElem?_eq_some_iff.mp hj
      refine .inr (Nat.le_trans ?_ hbound)
      rcases Nat.lt_or_ge j k with hjk' | hjk'
      · exact (pairwise_iff_getElem.mp hsorted j k hjl hk hjk').le
      · obtain rfl : j = k := by omega
        exact Nat.le_refl _

structure Inv (q : PacketQueue) : Prop where
  sorted : q.transmitList.Pairwise Earlier
  packets : ∀ p ∈ q.transmitList, p.pkt < q.calls ∧ p.tick ≠ maxTick
  changed : q.changed ≤ q.curTick
  waiting : q.waitingOnRetry = true →
    q.sendEvent = none ∧ ∃ p ∈ q.transmitList.head?, p.tick ≤ q.curTick
  idle : q.waitingOnRetry = false → q.transmitList = [] → q.sendEvent = none
  event : q.waitingOnRetry = false → ∀ p ∈ q.transmitList.head?, ∃ w,
    q.sendEvent = some w ∧ p.tick ≤ w ∧ w ≤ max p.tick (q.changed + 1)

theorem Inv.ordered (h : Inv q) : Ordered q := by
  refine ⟨h.sorted, fun hne => ?_⟩
  cases hw : q.waitingOnRetry with
  | true => exact .inl rfl
  | false =>
    obtain ⟨p, l, hl⟩ := exists_cons_of_ne_nil hne
    obtain ⟨w, hs, -, hle⟩ := h.event hw p (by rw [hl]; rfl)
    have hsorted := h.sorted
    rw [hl, pairwise_cons] at hsorted
    refine .inr ⟨p, by simp [hl], fun p' hp' => ?_, w, hs, hle⟩
    rw [hl] at hp'
    rcases mem_cons.mp hp' with rfl | hp'
    · exact Nat.le_refl _
    · exact (hsorted.1 p' hp').le

theorem Inv.schedSendTiming (h : Inv q) (hwhen : when ≠ maxTick)
    (hin : ∀ p ∈ q.transmitList.head?, p.tick ≤ when) :
    Outcome (q.schedSendTiming addr when false) Inv fun _ => True := by
  simp only [PacketQueue.schedSendTiming, outcome_do]
  intro hnow _
  cases hl : q.transmitList with
  | nil =>
    -- an empty queue does not wait, so the event is scheduled for the packet
    have hw : q.waitingOnRetry = false := by
      by_contra hw
      obtain ⟨-, p, hp, -⟩ := h.waiting (by simpa using hw)
      simp [hl] at hp
    simp only [schedSendEvent, hw, h.idle hw hl, hwhen, Bool.false_eq_true, if_false, outcome_pure]
    constructor
    · exact pairwise_singleton ..
    · simp [hwhen]
    · exact Nat.le_refl _
    · simp
    · simp
    · rintro - p hp
      cases hp
      exact ⟨_, rfl, Nat.le_max_left .., Nat.le_refl _⟩
  | cons p₀ l =>
    rw [hl] at hin
    obtain ⟨hafter, hbefore⟩ := searchBack_split when addr (hl ▸ h.sorted)
      (cons_ne_nil p₀ l)
    have hp₀ : p₀.tick ≤ when := hin p₀ rfl
    simp only [outcome_pure]
    have hsorted := h.sorted
    rw [hl, ← take_append_drop (searchBack (p₀ :: l) when addr false
      ((p₀ :: l).length - 1) + 1) (p₀ :: l), pairwise_append] at hsorted
    constructor
    · refine pairwise_append.mpr ⟨hsorted.1, pairwise_cons.mpr ⟨fun p hp => ?_, hsorted.2.1⟩,
        fun p hp p' hp' => ?_⟩
      · exact .inl (hafter p hp)
      · rcases mem_cons.mp hp' with rfl | hp'
        · have hle : p.tick ≤ when := by
            rcases hbefore p hp with hhead | hle
            · cases hhead
              exact hp₀
            · exact hle
          have hpkt := (h.packets p (hl ▸ mem_of_mem_take hp)).1
          rcases Nat.lt_or_eq_of_le hle with hlt | heq
          · exact .inl hlt
          · exact .inr ⟨heq, hpkt⟩
        · exact hsorted.2.2 p hp p' hp'
    · intro p hp
      rcases mem_append.mp hp with hp | hp
      · have hpk := h.packets p (hl ▸ mem_of_mem_take hp)
        exact ⟨Nat.lt_succ_of_lt hpk.1, hpk.2⟩
      · rcases mem_cons.mp hp with rfl | hp
        · exact ⟨Nat.lt_succ_self _, hwhen⟩
        · have hpk := h.packets p (hl ▸ mem_of_mem_drop hp)
          exact ⟨Nat.lt_succ_of_lt hpk.1, hpk.2⟩
    · exact Nat.le_refl _
    · intro hw
      obtain ⟨hs, p, hp, hle⟩ := h.waiting hw
      rw [hl] at hp
      exact ⟨hs, p, hp, hle⟩
    · intro _ hnil
      simp at hnil
    · intro hw p hp
      obtain ⟨w, hs, hle, hle'⟩ := h.event hw p (by rw [hl]; exact hp)
      have hch := h.changed
      refine ⟨w, hs, hle, ?_⟩
      show w ≤ max p.tick (q.curTick + 1)
      omega

theorem sendDeferredPacket_inv {sent : Bool} (hsorted : q.transmitList.Pairwise Earlier)
    (hpackets : ∀ p ∈ q.transmitList, p.pkt < q.calls ∧ p.tick ≠ maxTick)
    (hs : q.sendEvent = none) : Outcome (q.sendDeferredPacket sent) Inv fun _ => True := by
  simp only [sendDeferredPacket, outcome_do]
  intro hw
  cases hl : q.transmitList with
  | nil => trivial
  | cons p l =>
    rw [hl] at hsorted hpackets
    simp only [outcome_do]
    intro hready
    cases sent with
    | false =>
      simp only [Bool.false_eq_true, if_false, outcome_pure]
      exact ⟨hl ▸ hsorted, hl ▸ hpackets, Nat.le_refl _, fun _ => ⟨hs, p, by simp, hready⟩, by simp,
        by simp⟩
    | true =>
      rw [pairwise_cons] at hsorted
      have hrest := fun p' hp' => hpackets p' (mem_cons_of_mem p hp')
      cases l with
      | nil =>
        simp only [schedSendEvent, hw, if_true, Bool.false_eq_true, if_false, head?_nil,
          map_none, getD_none, outcome_pure]
        exact ⟨.nil, hrest, Nat.le_refl _, by simp, fun _ _ => hs, by simp⟩
      | cons p₁ l =>
        have hmax := (hrest p₁ (mem_cons_self ..)).2
        simp only [schedSendEvent, hw, hs, if_true, Bool.false_eq_true, if_false, head?_cons,
          map_some, getD_some, hmax, outcome_pure]
        refine ⟨hsorted.2, hrest, Nat.le_refl _, by simp, by simp, ?_⟩
        rintro - p' hp'
        cases hp'
        exact ⟨_, rfl, Nat.le_max_left .., Nat.le_refl _⟩

theorem Inv.exec (h : Inv q) {op : Op} (hmax : ∀ addr, op ≠ .schedSendTiming addr maxTick)
    (hin : InOrder q op) : Outcome (q.exec op) Inv fun _ => True := by
  cases op with
  | schedSendTiming addr when =>
    exact h.schedSendTiming (fun heq => hmax addr (heq ▸ rfl)) hin
  | processSendEvent sent =>
    simp only [PacketQueue.exec, outcome_ite, outcome_ok]
    exact ⟨fun _ => sendDeferredPacket_inv h.sorted h.packets rfl, fun _ => h⟩
  | retry sent =>
    simp only [PacketQueue.exec, outcome_ite, outcome_ok]
    exact ⟨fun hw => sendDeferredPacket_inv h.sorted h.packets (h.waiting hw).1, fun _ => h⟩
  | advance tick =>
    simp only [PacketQueue.exec, outcome_ite, outcome_ok]
    refine ⟨fun hle => ⟨h.sorted, h.packets, Nat.le_trans h.changed hle.1, fun hw => ?_, h.idle,
      h.event⟩, fun _ => h⟩
    obtain ⟨hs, p, hp, hready⟩ := h.waiting hw
    exact ⟨hs, p, hp, Nat.le_trans hready hle.1⟩

theorem inv_run {start : PacketQueue} (hstart : Inv start) {ops : List Op}
    (hmax : ∀ op ∈ ops, ∀ addr, op ≠ .schedSendTiming addr maxTick)
    (hin : ∀ pre op, pre ++ [op] <+: ops → ∀ q q', pre.foldlM exec start = .ok q →
      q.exec op = .ok q' → InOrder q op) :
    Outcome (ops.foldlM exec start) Inv fun _ => True := by
  induction ops using reverseRecOn with
  | nil => exact hstart
  | append_singleton ops op ih =>
    rw [foldlM_append, outcome_bind]
    apply Outcome.intro
    · intro q hq
      have hq' : Inv q := (ih (fun op hop => hmax op (mem_append_left _ hop))
        fun pre op hpre => hin pre op (hpre.trans (prefix_append ..))).of_ok hq
      simp only [foldlM_cons, foldlM_nil, bind_pure]
      apply Outcome.intro
      · intro q' hexec
        exact (hq'.exec (hmax op (by simp)) (hin ops op (prefix_refl _) q q' hq hexec)).of_ok hexec
      · exact fun _ _ => trivial
    · exact fun _ _ => trivial

theorem schedSendTiming_list (hl : q.transmitList = p :: l) :
    Outcome (q.schedSendTiming addr when false) (fun q' => ∃ p' k, p'.tick = when ∧
      q'.transmitList = (p :: l).take (k + 1) ++ p' :: (p :: l).drop (k + 1)) fun _ => True := by
  simp only [PacketQueue.schedSendTiming, outcome_do, hl]
  exact fun _ _ => ⟨_, _, rfl, rfl⟩

/-- **The order of a packet queue.** List and send event are in order in all states of a run if and
only if no packet was scheduled before the first one of the list. -/
theorem ordered_iff (curTick : Nat) (disableSanityCheck : Bool) (ops : List Op)
    (hmax : ∀ op ∈ ops, ∀ addr, op ≠ .schedSendTiming addr maxTick) : let start : PacketQueue :=
      { curTick := curTick, changed := curTick, disableSanityCheck := disableSanityCheck }
    (∀ pre, pre <+: ops → ∀ q, pre.foldlM exec start = .ok q → Ordered q) ↔
      ∀ pre op, pre ++ [op] <+: ops → ∀ q q', pre.foldlM exec start = .ok q → q.exec op = .ok q' →
        InOrder q op := by
  intro start
  have hstart : Inv start := ⟨.nil, by simp [start], Nat.le_refl _, by simp [start], by simp [start],
    by simp [start]⟩
  constructor
  · intro h pre op hpre q q' hq hq'
    cases op with
    | processSendEvent | retry | advance => trivial
    | schedSendTiming addr when =>
      intro p hp
      by_contra hlt
      obtain ⟨l, hl⟩ : ∃ l, q.transmitList = p :: l := List.head?_eq_some_iff.mp hp
      -- the new packet stands behind the first one
      obtain ⟨p', k, hp', hlist⟩ := (schedSendTiming_list hl).of_ok hq'
      have hrun : (pre ++ [Op.schedSendTiming addr when]).foldlM exec start = .ok q' := by
        rw [foldlM_append, hq]
        exact (bind_pure _).trans hq'
      have hsorted := (h _ hpre q' hrun).sorted
      rw [hlist, pairwise_append] at hsorted
      have hle := (hsorted.2.2 p (by simp) p' (mem_cons_self ..)).le
      rw [hp'] at hle
      exact hlt hle
  · intro h pre hpre q hq
    refine ((inv_run hstart (fun op hop => hmax op (hpre.subset hop)) fun pre' op hpre' => ?_).of_ok
      hq).ordered
    exact h pre' op (hpre'.trans hpre)

theorem ordered_iff_two :
    (([.schedSendTiming 0 5, .schedSendTiming 1 7] : List Op).foldlM exec {}).toOption.isSome = true ∧
      ∀ pre, pre <+: [.schedSendTiming 0 5, .schedSendTiming 1 7] →
        ∀ q, pre.foldlM exec { curTick := 0 } = .ok q → Ordered q := by
  refine ⟨by decide, (ordered_iff 0 false [.schedSendTiming 0 5, .schedSendTiming 1 7]
    (by simp [maxTick])).mpr ?_⟩
  intro pre op hpre q q' hq _
  match pre with
  | [] =>
    obtain rfl : op = .schedSendTiming 0 5 := by simpa using hpre
    cases hq
    exact fun p hp => nomatch hp
  | [op₁] =>
    obtain ⟨rfl, rfl⟩ : op₁ = .schedSendTiming 0 5 ∧ op = .schedSendTiming 1 7 := by simpa using hpre
    cases hq
    intro p hp
    cases hp
    decide
  | op₁ :: op₂ :: pre =>
    have hlen := hpre.length_le
    simp at hlen

/-- A packet for tick `5` is queued behind one for tick `10`, and the send event stays at tick `10`. -/
theorem ordered_violated :
    (([.schedSendTiming 0 10, .schedSendTiming 1 5] : List Op).foldlM exec {}).toOption.map (fun q =>
      (q.transmitList.map DeferredPacket.tick, q.waitingOnRetry, q.sendEvent, q.changed)) =
      some ([10, 5], false, some 10, 0) := by
  decide

end NocSwap.Base.PacketQueue
