import NocSwap.Tester.SyntheticTraffic

/-!
# The packets of the tester
-/

namespace NocSwap.Tester.SyntheticTraffic

open List Nat

variable {P : Params} {s s' : SyntheticTraffic} {l : Label}

structure Inv (s : SyntheticTraffic) : Prop where
  held : s.onRetryList = true → s.retryPkt ≠ none
  lt_of_held : ∀ n, s.retryPkt = some n → n < s.generated
  lt_of_accepted : ∀ n ∈ s.accepted, n < s.generated
  notMem_of_held : ∀ n, s.retryPkt = some n → n ∉ s.accepted

def Lost (s : SyntheticTraffic) (n : Nat) : Prop :=
  n < s.generated ∧ n ∉ s.accepted ∧ s.retryPkt ≠ some n

def Overwrites (P : Params) (s : SyntheticTraffic) : Label → Prop
  | .tick _ trySending answer => s.sends P trySending ∧ answer = false ∧ s.retryPkt ≠ none
  | _ => False

inductive Moves (s s' : SyntheticTraffic) : Prop
  /-- Nothing. -/
  | stay (hg : s'.generated = s.generated) (ha : s'.accepted = s.accepted)
      (hr : s'.retryPkt = s.retryPkt)
  /-- The port takes a new packet. -/
  | take (hg : s'.generated = s.generated + 1) (ha : s'.accepted = s.accepted ++ [s.generated])
      (hr : s'.retryPkt = s.retryPkt)
  /-- A new packet is held. -/
  | hold (hg : s'.generated = s.generated + 1) (ha : s'.accepted = s.accepted)
      (hr : s'.retryPkt = some s.generated)
  /-- The port takes the packet that was held. -/
  | retry (n : Nat) (hn : s.retryPkt = some n) (hg : s'.generated = s.generated)
      (ha : s'.accepted = s.accepted ++ [n]) (hr : s'.retryPkt = none)

section Step

theorem addToRetryList_eq (P : Params) (s : SyntheticTraffic) :
    ∃ b, s.addToRetryList P = { s with onRetryList := b } := by
  unfold addToRetryList
  split
  · exact ⟨true, rfl⟩
  · exact ⟨s.onRetryList, rfl⟩

theorem scheduleWakeup_outcome (P : Params) (curTick : Nat) (s : SyntheticTraffic) :
    Outcome (s.scheduleWakeup P curTick)
      (fun s' => s'.generated = s.generated ∧ s'.accepted = s.accepted ∧
        s'.retryPkt = s.retryPkt ∧ s'.onRetryList = s.onRetryList) (· = .unknownSimType) := by
  unfold scheduleWakeup
  split
  · split <;> exact ⟨rfl, rfl, rfl, rfl⟩
  · split
    · exact ⟨rfl, rfl, rfl, rfl⟩
    · exact rfl

theorem Inv.retryPkt_ne (h : Inv s) : s.retryPkt ≠ some s.generated := fun heq =>
  Nat.lt_irrefl _ (h.lt_of_held _ heq)

theorem generatePkt_moves (h : Inv s) (answer : Bool) : Moves s (s.generatePkt P answer) ∧
      ((s.generatePkt P answer).onRetryList = true → (s.generatePkt P answer).retryPkt ≠ none) ∧
      ((s.generatePkt P answer).retryPkt = some s.generated ↔ answer = false) := by
  unfold generatePkt sendPkt sendTimingReq
  cases answer with
  | true =>
    refine ⟨.take rfl rfl rfl, h.held, ?_⟩
    simpa using h.retryPkt_ne
  | false =>
    obtain ⟨b, hb⟩ := addToRetryList_eq P { s with generated := s.generated + 1 }
    simp only [Bool.false_eq_true, if_false, if_true, hb]
    exact ⟨.hold rfl rfl rfl, fun _ => Option.some_ne_none _, by simp⟩

/-- One call never sends the null packet, and loses a packet exactly if it overwrites a held one. -/
theorem step_outcome (h : Inv s) (l : Label) : Outcome (s.step P l)
      (fun s' => Moves s s' ∧ (s'.onRetryList = true → s'.retryPkt ≠ none) ∧
        (s.Overwrites P l ↔ s'.retryPkt = some s.generated ∧ s.retryPkt ≠ none))
      (· = .unknownSimType) := by
  cases l with
  | tick curTick trySending answer =>
    unfold step tick
    refine (scheduleWakeup_outcome ..).imp ?_
    rintro s' ⟨hg, ha, hr, hon⟩
    by_cases hs : SyntheticTraffic.sends P trySending
        { s with noResponseCycles := s.noResponseCycles + 1, tickScheduled := false }
    · rw [if_pos hs] at hg ha hr hon
      have h₀ : Inv { s with noResponseCycles := s.noResponseCycles + 1, tickScheduled := false } :=
        ⟨h.held, h.lt_of_held, h.lt_of_accepted, h.notMem_of_held⟩
      obtain ⟨hmove, hheld, hiff⟩ := generatePkt_moves (P := P) h₀ answer
      refine ⟨?_, ?_, ?_⟩
      · cases hmove with
        | stay hg' ha' hr' => exact .stay (hg.trans hg') (ha.trans ha') (hr.trans hr')
        | take hg' ha' hr' => exact .take (hg.trans hg') (ha.trans ha') (hr.trans hr')
        | hold hg' ha' hr' => exact .hold (hg.trans hg') (ha.trans ha') (hr.trans hr')
        | retry n hn hg' ha' hr' =>
          exact .retry n hn (hg.trans hg') (ha.trans ha') (hr.trans hr')
      · rwa [hon, hr]
      · rw [hr, hiff]
        exact and_iff_right hs
    · rw [if_neg hs] at hg ha hr hon
      refine ⟨.stay hg ha hr, ?_, ?_⟩
      · rw [hon, hr]
        exact h.held
      · rw [hr]
        exact ⟨fun hov => absurd hov.1 hs, fun hov => absurd hov.1 h.retryPkt_ne⟩
  | trySendRetries answer =>
    unfold step trySendRetries doRetry
    rw [outcome_ite]
    refine ⟨fun hon => ?_, fun _ => ⟨.stay rfl rfl rfl, h.held, ?_⟩⟩
    · rw [outcome_bind, outcome_orFail]
      refine ⟨fun pkt hpkt => ?_, fun hnone => absurd hnone (h.held hon)⟩
      change s.retryPkt = some pkt at hpkt
      unfold sendTimingReq
      cases answer with
      | true =>
        refine ⟨.retry pkt hpkt rfl rfl rfl, fun hoff => Bool.noConfusion hoff, ?_⟩
        exact ⟨False.elim, fun hov => absurd hov.1.symm (Option.some_ne_none _)⟩
      | false =>
        obtain ⟨b, hb⟩ := addToRetryList_eq P { s with onRetryList := false }
        simp only [Bool.false_eq_true, if_false, hb]
        refine ⟨.stay rfl rfl rfl, fun _ => ?_, ?_⟩
        · show s.retryPkt ≠ none
          rw [hpkt]
          exact Option.some_ne_none _
        · exact ⟨False.elim, fun hov => absurd hov.1 h.retryPkt_ne⟩
    · exact ⟨False.elim, fun hov => absurd hov.1 h.retryPkt_ne⟩
  | completeRequest =>
    refine ⟨.stay rfl rfl rfl, h.held, ?_⟩
    exact ⟨False.elim, fun hov => absurd hov.1 h.retryPkt_ne⟩

theorem Moves.inv (hm : Moves s s') (h : Inv s)
    (hheld : s'.onRetryList = true → s'.retryPkt ≠ none) : Inv s' := by
  refine ⟨hheld, fun n hn => ?_, fun n hn => ?_, fun n hn => ?_⟩
  · cases hm with
    | stay hg ha hr => exact hg ▸ h.lt_of_held n (hr ▸ hn)
    | take hg ha hr => exact hg ▸ lt_succ_of_lt (h.lt_of_held n (hr ▸ hn))
    | hold hg ha hr =>
      obtain rfl : s.generated = n := Option.some.inj (hr ▸ hn)
      rw [hg]
      exact lt_succ_self _
    | retry m hm hg ha hr => exact absurd (hr ▸ hn) (Option.some_ne_none n).symm
  · cases hm with
    | stay hg ha hr => exact hg ▸ h.lt_of_accepted n (ha ▸ hn)
    | take hg ha hr =>
      rw [hg]
      rw [ha] at hn
      rcases mem_append.mp hn with hn | hn
      · exact lt_succ_of_lt (h.lt_of_accepted n hn)
      · rw [mem_singleton.mp hn]
        exact lt_succ_self _
    | hold hg ha hr => exact hg ▸ lt_succ_of_lt (h.lt_of_accepted n (ha ▸ hn))
    | retry m hm hg ha hr =>
      rw [hg]
      rw [ha] at hn
      rcases mem_append.mp hn with hn | hn
      · exact h.lt_of_accepted n hn
      · rw [mem_singleton.mp hn]
        exact h.lt_of_held m hm
  · cases hm with
    | stay hg ha hr => exact ha ▸ h.notMem_of_held n (hr ▸ hn)
    | take hg ha hr =>
      rw [hr] at hn
      rw [ha, mem_append, mem_singleton, not_or]
      exact ⟨h.notMem_of_held n hn, (h.lt_of_held n hn).ne⟩
    | hold hg ha hr =>
      obtain rfl : s.generated = n := Option.some.inj (hr ▸ hn)
      rw [ha]
      exact fun hin => Nat.lt_irrefl _ (h.lt_of_accepted _ hin)
    | retry m hm hg ha hr => exact absurd (hr ▸ hn) (Option.some_ne_none n).symm

theorem Moves.lost (hm : Moves s s') {n : Nat} (hn : s.Lost n) : s'.Lost n := by
  obtain ⟨hlt, hacc, hret⟩ := hn
  cases hm with
  | stay hg ha hr => exact ⟨hg ▸ hlt, ha ▸ hacc, hr ▸ hret⟩
  | take hg ha hr =>
    refine ⟨hg ▸ lt_succ_of_lt hlt, ?_, hr ▸ hret⟩
    rw [ha, mem_append, mem_singleton, not_or]
    exact ⟨hacc, hlt.ne⟩
  | hold hg ha hr =>
    refine ⟨hg ▸ lt_succ_of_lt hlt, ha ▸ hacc, ?_⟩
    rw [hr]
    exact fun heq => hlt.ne (Option.some.inj heq).symm
  | retry m hm hg ha hr =>
    refine ⟨hg ▸ hlt, ?_, ?_⟩
    · rw [ha, mem_append, mem_singleton, not_or]
      exact ⟨hacc, fun heq => hret (heq ▸ hm)⟩
    · rw [hr]
      exact (Option.some_ne_none n).symm

theorem Moves.lost_iff (hm : Moves s s') {n : Nat}
    (hov : ¬ (s'.retryPkt = some s.generated ∧ s.retryPkt ≠ none)) : s'.Lost n ↔ s.Lost n := by
  refine ⟨fun hn => ?_, hm.lost⟩
  obtain ⟨hlt, hacc, hret⟩ := hn
  cases hm with
  | stay hg ha hr => exact ⟨hg ▸ hlt, ha ▸ hacc, hr ▸ hret⟩
  | take hg ha hr =>
    rw [hg] at hlt
    rw [ha, mem_append, mem_singleton, not_or] at hacc
    exact ⟨Nat.lt_of_le_of_ne (le_of_lt_succ hlt) hacc.2, hacc.1, hr ▸ hret⟩
  | hold hg ha hr =>
    rw [hr] at hret
    have hnone : s.retryPkt = none := by
      by_contra hne
      exact hov ⟨hr, hne⟩
    rw [hg] at hlt
    refine ⟨Nat.lt_of_le_of_ne (le_of_lt_succ hlt) fun heq => hret (heq ▸ rfl), ha ▸ hacc, ?_⟩
    rw [hnone]
    exact (Option.some_ne_none n).symm
  | retry m hm hg ha hr =>
    rw [ha, mem_append, mem_singleton, not_or] at hacc
    refine ⟨hg ▸ hlt, hacc.1, ?_⟩
    rw [hm]
    exact fun heq => hacc.2 (Option.some.inj heq).symm

theorem Moves.lost_of_overwrites (hm : Moves s s') (h : Inv s)
    (hov : s'.retryPkt = some s.generated ∧ s.retryPkt ≠ none) : ∃ n, s'.Lost n := by
  obtain ⟨hnew, hold⟩ := hov
  obtain ⟨n, hn⟩ := Option.ne_none_iff_exists'.mp hold
  refine ⟨n, ?_⟩
  cases hm with
  | stay hg ha hr | take hg ha hr => exact absurd (hr ▸ hnew) h.retryPkt_ne
  | hold hg ha hr =>
    have hlt := h.lt_of_held n hn
    refine ⟨hg ▸ lt_succ_of_lt hlt, ha ▸ h.notMem_of_held n hn, ?_⟩
    rw [hr]
    exact fun heq => hlt.ne (Option.some.inj heq).symm
  | retry m hm hg ha hr => exact absurd (hr ▸ hnew) (Option.some_ne_none _).symm

end Step

def RunOverwrites (P : Params) (ls : List Label) (s : SyntheticTraffic) : Prop :=
  ∃ ls₁ l ls₂ s₁, ls = ls₁ ++ l :: ls₂ ∧ s.run P ls₁ = .ok s₁ ∧ s₁.Overwrites P l

theorem runOverwrites_cons {ls : List Label} (hs : s.step P l = .ok s') :
    RunOverwrites P (l :: ls) s ↔ s.Overwrites P l ∨ RunOverwrites P ls s' := by
  constructor
  · rintro ⟨ls₁, l', ls₂, s₁, heq, hrun, hov⟩
    cases ls₁ with
    | nil =>
      obtain ⟨rfl, -⟩ := List.cons.inj heq
      cases hrun
      exact .inl hov
    | cons k ls₁ =>
      obtain ⟨rfl, rfl⟩ := List.cons.inj heq
      refine .inr ⟨ls₁, l', ls₂, s₁, rfl, ?_, hov⟩
      rw [run, foldlM_cons, hs] at hrun
      exact hrun
  · rintro (hov | ⟨ls₁, l', ls₂, s₁, rfl, hrun, hov⟩)
    · exact ⟨[], l, ls, s, rfl, rfl, hov⟩
    · refine ⟨l :: ls₁, l', ls₂, s₁, rfl, ?_, hov⟩
      rw [run, foldlM_cons, hs]
      exact hrun

/-- **A run** never sends the null packet, and loses a packet exactly if a call overwrites a held
one. -/
theorem run_outcome (h : Inv s) (ls : List Label) : Outcome (s.run P ls)
      (fun s' => ((∃ n, s'.Lost n) ↔ (∃ n, s.Lost n) ∨ RunOverwrites P ls s))
      (· = .unknownSimType) := by
  induction ls generalizing s with
  | nil =>
    have hnil : ¬ RunOverwrites P [] s := by
      rintro ⟨ls₁, l, ls₂, s₁, heq, -⟩
      exact append_ne_nil_of_right_ne_nil ls₁ (cons_ne_nil l ls₂) heq.symm
    exact (or_iff_left hnil).symm
  | cons l ls ih =>
    have hstep := step_outcome (P := P) h l
    rw [run, foldlM_cons, outcome_bind]
    refine Outcome.intro (fun s₁ hs₁ => ?_) fun f hf => hstep.of_error hf
    obtain ⟨hmove, hheld, hov⟩ := hstep.of_ok hs₁
    refine (ih (hmove.inv h hheld)).imp fun s' hs' => ?_
    rw [hs', runOverwrites_cons hs₁, ← or_assoc]
    refine or_congr_left ?_
    by_cases hover : s.Overwrites P l
    · have hlost := hmove.lost_of_overwrites h (hov.mp hover)
      exact ⟨fun _ => .inr hover, fun _ => hlost⟩
    · have hiff := fun n => hmove.lost_iff (n := n) fun h' => hover (hov.mpr h')
      rw [or_iff_left hover]
      exact exists_congr hiff

theorem inv_init : Inv {} where
  held hon := Bool.noConfusion hon
  lt_of_held n hn := absurd hn (Option.some_ne_none n).symm
  lt_of_accepted _ hn := absurd hn not_mem_nil
  notMem_of_held n hn := absurd hn (Option.some_ne_none n).symm

/-- The tester never sends the null packet; and none is lost exactly if no call generated one that
the port refused while another was held. -/
theorem no_packet_lost_iff (P : Params) (ls : List Label) :
    SyntheticTraffic.run P ls {} ≠ .error .nullPacket ∧
    ∀ s, SyntheticTraffic.run P ls {} = .ok s →
      ((∀ n < s.generated, n ∈ s.accepted ∨ s.retryPkt = some n) ↔ ¬ RunOverwrites P ls {}) := by
  have hrun := run_outcome (P := P) inv_init ls
  refine ⟨fun herr => ?_, fun s hs => ?_⟩
  · have := hrun.of_error herr
    cases this
  · have hiff := hrun.of_ok hs
    have hinit : ¬ ∃ n, Lost {} n := by
      rintro ⟨n, hn, -⟩
      exact absurd hn (Nat.not_lt_zero n)
    rw [or_iff_right hinit] at hiff
    rw [← hiff, not_exists]
    apply forall_congr'
    intro n
    unfold Lost
    tauto

/-- A packet that is refused and then taken, with no other one in between. -/
theorem no_packet_lost_iff_retry : let P : Params := ⟨0, 10, -1, -1, 1, 1, 3, false⟩
    let ls : List Label := [.tick 0 0 false, .trySendRetries true, .tick 1 0 true]
    let s : SyntheticTraffic :=
      { generated := 2, accepted := [0, 1], numPacketsSent := 2, noResponseCycles := 2 }
    SyntheticTraffic.run P ls {} = .ok s ∧
      ((∀ n < s.generated, n ∈ s.accepted ∨ s.retryPkt = some n) ↔ ¬ RunOverwrites P ls {}) := by
  intro P ls s
  have hrun : SyntheticTraffic.run P ls {} = .ok s := eq_ok_of_toOption (by decide +kernel)
  exact ⟨hrun, (no_packet_lost_iff P ls).2 s hrun⟩

/-- Two packets are refused one after the other: the first one is lost. -/
theorem packet_lost_two_refused : let P : Params := ⟨0, 10, -1, -1, 1, 1, 3, false⟩
    ∃ s, SyntheticTraffic.run P [.tick 0 0 false, .tick 1 0 false, .trySendRetries true] {} = .ok s ∧
      0 < s.generated ∧ 0 ∉ s.accepted ∧ s.retryPkt ≠ some 0 :=
  ⟨{ generated := 2, accepted := [1], numPacketsSent := 2, noResponseCycles := 2 },
    eq_ok_of_toOption (by decide +kernel), by decide, by decide, by decide⟩

end NocSwap.Tester.SyntheticTraffic
