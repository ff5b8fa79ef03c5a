import NocSwap.Ruby.Consumer

/-!
# Wakeups neither lost nor doubled
-/

namespace NocSwap.Ruby.Consumer

open List Nat

variable {period : Nat} {past : Past} {c : Consumer}

/-! ### What is asked of a consumer -/

def waiting : Past → List Nat
  | [] => []
  | (_, .call t) :: past => t :: waiting past
  | (c, .fire) :: past => (waiting past).filter fun t => t ≠ c.curTick
  | _ :: past => waiting past

structure Answered (past : Past) (c : Consumer) : Prop where
  pending : ∀ t ∈ waiting past, c.curTick ≤ t ∧ t ∈ c.events
  single : c.events.Nodup

def Always (Q : Past → Consumer → Prop) : Past → Consumer → Prop
  | [], c => Q [] c
  | (c', a) :: past, c => Always Q past c' ∧ Q ((c', a) :: past) c

def Requested (past : Past) (t : Nat) : Prop := ∃ e ∈ past, e.2 = .call t

def Action.isCall : Action → Bool
  | .call _ => true
  | _ => false

def Late (period : Nat) (past : Past) (t : Nat) : Prop :=
  ∃ e ∈ past, e.2.isCall = true ∧ t < e.1.clockEdge period 0

/-- The condition on a call for tick `t`, by the clock edges of the earlier calls for it. -/
def Meets (period : Nat) (past : Past) (c : Consumer) (t : Nat) : Prop :=
  if t ∈ c.events then ¬ Late period past t else Requested past t → Late period past t

def CallsMeet (period : Nat) : Past → Prop
  | [] => True
  | (c, a) :: past => CallsMeet period past ∧ ∀ t, a = .call t → Meets period past c t

instance (past : Past) (t : Nat) : Decidable (Requested past t) :=
  inferInstanceAs (Decidable (∃ e ∈ past, e.2 = .call t))

instance (past : Past) (t : Nat) : Decidable (Late period past t) :=
  inferInstanceAs (Decidable (∃ e ∈ past, e.2.isCall = true ∧ t < e.1.clockEdge period 0))

instance (past : Past) (c : Consumer) (t : Nat) : Decidable (Meets period past c t) :=
  inferInstanceAs (Decidable (if t ∈ c.events then _ else _))

instance decidableCallsMeet : (past : Past) → Decidable (CallsMeet period past)
  | [] => isTrue trivial
  | (c, .call t) :: past =>
    have := decidableCallsMeet past
    decidable_of_iff (CallsMeet period past ∧ Meets period past c t)
      (and_congr_right fun _ => ⟨fun h _ hu => Action.call.inj hu ▸ h, fun h => h t rfl⟩)
  | (_, .fire) :: past | (_, .read) :: past | (_, .advance _) :: past =>
    have := decidableCallsMeet past
    decidable_of_iff (CallsMeet period past) (iff_self_and.mpr fun _ _ => nofun)

theorem Clocked.le_update (now : Nat) (c : Clocked) : c.tick ≤ (c.update period now).tick := by
  unfold Clocked.update
  dsimp only
  split_ifs
  · exact le_refl _
  · exact Nat.le_add_right ..
  · exact (Nat.le_add_right ..).trans (Nat.le_add_right ..)

variable {e : Consumer × Action} {t : Nat}

theorem requested_cons : Requested (e :: past) t ↔ e.2 = .call t ∨ Requested past t := by
  simp [Requested]

theorem late_cons : Late period (e :: past) t ↔
    (e.2.isCall = true ∧ t < e.1.clockEdge period 0) ∨ Late period past t := by
  simp [Late]

structure Invariant (period : Nat) (past : Past) (c : Consumer) : Prop where
  edge : ∀ t, Late period past t → t < c.clock.tick
  scheduled : ∀ t, t ∈ c.scheduledWakeups ↔ Requested past t ∧ ¬ Late period past t
  events : ∀ t ∈ c.events, c.curTick ≤ t ∧ Requested past t

theorem mem_scheduleEventAbsolute {u : Nat} :
    u ∈ (c.scheduleEventAbsolute period t).scheduledWakeups ↔
      (u = t ∨ u ∈ c.scheduledWakeups) ∧ c.clockEdge period 0 ≤ u := by
  unfold scheduleEventAbsolute alreadyScheduled
  by_cases ht : t ∈ c.scheduledWakeups
  · simp only [ht, decide_true, if_true, Finset.mem_filter]
    refine and_congr_left fun _ => ⟨.inr, fun h => h.elim (fun h => h ▸ ht) id⟩
  · simp only [ht, decide_false, Bool.false_eq_true, if_false, insertScheduledWakeupTime,
      Finset.mem_filter, Finset.mem_insert]
    exact Iff.rfl

theorem scheduleEventAbsolute_events (c : Consumer) (t : Nat) :
    (c.scheduleEventAbsolute period t).events =
      if t ∈ c.scheduledWakeups then c.events else t :: c.events := by
  unfold scheduleEventAbsolute alreadyScheduled
  by_cases ht : t ∈ c.scheduledWakeups <;>
    simp [ht, readClock, insertScheduledWakeupTime]

theorem scheduleEventAbsolute_curTick (c : Consumer) (t : Nat) :
    (c.scheduleEventAbsolute period t).curTick = c.curTick := by
  unfold scheduleEventAbsolute readClock insertScheduledWakeupTime
  dsimp only
  split_ifs <;> rfl

theorem scheduleEventAbsolute_tick (c : Consumer) (t : Nat) :
    (c.scheduleEventAbsolute period t).clock.tick = c.clockEdge period 0 := by
  unfold scheduleEventAbsolute readClock insertScheduledWakeupTime clockEdge
  dsimp only
  split_ifs <;> rfl

theorem Invariant.call (h : Invariant period past c) (ht : c.curTick ≤ t) :
    Invariant period ((c, .call t) :: past) (c.act period (.call t)) := by
  have hle : c.clock.tick ≤ c.clockEdge period 0 := Clocked.le_update c.curTick c.clock
  refine ⟨fun u hu => ?_, fun u => ?_, fun u hu => ?_⟩
  · show u < (c.scheduleEventAbsolute period t).clock.tick
    rw [scheduleEventAbsolute_tick]
    rcases late_cons.mp hu with ⟨-, hlt⟩ | hu
    · exact hlt
    · exact (h.edge u hu).trans_le hle
  · show u ∈ (c.scheduleEventAbsolute period t).scheduledWakeups ↔ _
    rw [mem_scheduleEventAbsolute, requested_cons, late_cons, h.scheduled]
    constructor
    · rintro ⟨hu, hedge⟩
      -- an earlier call with its edge after `u` contradicts the edge of this one
      have hlate : ¬ Late period past u := fun hu' => by
        have hlt := h.edge u hu'
        omega
      refine ⟨hu.imp (fun (hu : u = t) => congrArg Action.call hu.symm) And.left, ?_⟩
      rintro (⟨-, hlt⟩ | hu')
      · have hlt : u < c.clockEdge period 0 := hlt
        omega
      · exact hlate hu'
    · rintro ⟨hu, hnot⟩
      obtain ⟨hedge, hlate⟩ := not_or.mp hnot
      refine ⟨hu.imp (fun hu => (Action.call.inj hu).symm) fun hu => ⟨hu, hlate⟩, ?_⟩
      apply Nat.le_of_not_lt
      exact fun hlt => hedge ⟨rfl, hlt⟩
  · have hu : u ∈ (c.scheduleEventAbsolute period t).events := hu
    show (c.scheduleEventAbsolute period t).curTick ≤ u ∧ _
    rw [scheduleEventAbsolute_curTick, requested_cons]
    rw [scheduleEventAbsolute_events] at hu
    split_ifs at hu
    · exact ⟨(h.events u hu).1, .inr (h.events u hu).2⟩
    · rcases mem_cons.mp hu with rfl | hu
      · exact ⟨ht, .inl rfl⟩
      · exact ⟨(h.events u hu).1, .inr (h.events u hu).2⟩

variable {a : Action}

theorem Action.ne_call (ha : a.isCall = false) (t : Nat) : a ≠ .call t := by
  rintro rfl
  nomatch ha

theorem Invariant.other (h : Invariant period past c) (ha : a.isCall = false) {c' : Consumer}
    (htick : c.clock.tick ≤ c'.clock.tick) (hset : c'.scheduledWakeups = c.scheduledWakeups)
    (hev : ∀ t ∈ c'.events, t ∈ c.events ∧ c'.curTick ≤ t) :
    Invariant period ((c, a) :: past) c' := by
  have hlate (t : Nat) : Late period ((c, a) :: past) t ↔ Late period past t := by
    rw [late_cons]
    exact or_iff_right fun ⟨hcall, _⟩ => nomatch ha.symm.trans hcall
  have hreq (t : Nat) : Requested ((c, a) :: past) t ↔ Requested past t := by
    rw [requested_cons]
    exact or_iff_right (Action.ne_call ha t)
  refine ⟨fun t ht => ?_, fun t => ?_, fun t ht => ?_⟩
  · exact (h.edge t ((hlate t).mp ht)).trans_le htick
  · rw [hset, hlate, hreq]
    exact h.scheduled t
  · obtain ⟨hold, hle⟩ := hev t ht
    exact ⟨hle, (hreq t).mpr (h.events t hold).2⟩

theorem run_invariant (h : Run period past c) : Invariant period past c := by
  induction h with
  | init =>
    refine ⟨fun t ⟨e, he, _⟩ => (nomatch he), fun t => ?_, forall_mem_nil _⟩
    refine iff_of_false (Finset.notMem_empty t) ?_
    rintro ⟨⟨e, he, -⟩, -⟩
    nomatch he
  | @step past c a _ hen ih =>
    cases a with
    | call t => exact ih.call hen
    | fire =>
      refine ih.other (a := .fire) rfl (le_refl _) rfl fun t ht => ?_
      have hold := mem_of_mem_erase ht
      exact ⟨hold, (ih.events t hold).1⟩
    | read =>
      exact ih.other (a := .read) rfl (Clocked.le_update ..) rfl
        fun t ht => ⟨ht, (ih.events t ht).1⟩
    | advance t' =>
      exact ih.other (a := .advance t') rfl (le_refl _) rfl
        fun t ht => ⟨ht, hen.2 t ht⟩

theorem Always.last {Q : Past → Consumer → Prop} (h : Always Q past c) : Q past c := by
  cases past with
  | nil => exact h
  | cons e past => exact h.2

theorem Answered.other (h : Answered past c) (hen : c.Enabled a)
    (ha : a.isCall = false) : Answered ((c, a) :: past) (c.act period a) := by
  cases a with
  | call t => nomatch ha
  | fire =>
    refine ⟨fun t ht => ?_, h.single.erase _⟩
    obtain ⟨hw, hne⟩ := mem_filter.mp ht
    obtain ⟨hle, hev⟩ := h.pending t hw
    exact ⟨hle, (mem_erase_of_ne (of_decide_eq_true hne)).mpr hev⟩
  | read => exact ⟨h.pending, h.single⟩
  | advance t' => exact ⟨fun t ht => ⟨hen.2 t (h.pending t ht).2, (h.pending t ht).2⟩, h.single⟩

theorem Answered.call_iff (hinv : Invariant period past c) (h : Answered past c)
    (ht : c.curTick ≤ t) :
    Answered ((c, .call t) :: past) (c.act period (.call t)) ↔ Meets period past c t := by
  have hev : (c.act period (.call t)).events =
      if t ∈ c.scheduledWakeups then c.events else t :: c.events := scheduleEventAbsolute_events c t
  have hcur : (c.act period (.call t)).curTick = c.curTick := scheduleEventAbsolute_curTick c t
  unfold Meets
  by_cases hset : t ∈ c.scheduledWakeups
  · -- no event is added: there must be one
    obtain ⟨hreq, hlate⟩ := (hinv.scheduled t).mp hset
    rw [if_pos hset] at hev
    split_ifs with hmem
    · refine iff_of_true ⟨fun u hu => ?_, hev ▸ h.single⟩ hlate
      rw [hev, hcur]
      rcases mem_cons.mp hu with rfl | hu
      · exact ⟨ht, hmem⟩
      · exact h.pending u hu
    · refine iff_of_false (fun hans => hmem ?_) fun himp => hlate (himp hreq)
      exact hev ▸ (hans.pending t (mem_cons_self ..)).2
  · -- an event is added: there must be none
    have hnot : Requested past t → Late period past t := fun hreq => by
      by_contra hlate
      exact hset ((hinv.scheduled t).mpr ⟨hreq, hlate⟩)
    rw [if_neg hset] at hev
    split_ifs with hmem
    · refine iff_of_false (fun hans => ?_) fun hlate => hlate (hnot (hinv.events t hmem).2)
      have hnodup := hans.single
      rw [hev] at hnodup
      exact (nodup_cons.mp hnodup).1 hmem
    · refine iff_of_true ⟨fun u hu => ?_, ?_⟩ hnot
      · rw [hev, hcur]
        rcases mem_cons.mp hu with rfl | hu
        · exact ⟨ht, mem_cons_self ..⟩
        · exact ⟨(h.pending u hu).1, mem_cons_of_mem _ (h.pending u hu).2⟩
      · rw [hev]
        exact nodup_cons.mpr ⟨hmem, h.single⟩

theorem Answered.act_iff (hinv : Invariant period past c) (h : Answered past c)
    (hen : c.Enabled a) :
    Answered ((c, a) :: past) (c.act period a) ↔ ∀ t, a = .call t → Meets period past c t := by
  cases ha : a.isCall with
  | true =>
    cases a with
    | call t =>
      refine (h.call_iff hinv hen).trans ⟨fun hm u hu => ?_, fun hm => hm t rfl⟩
      exact Action.call.inj hu ▸ hm
    | fire | read | advance => nomatch ha
  | false =>
    exact iff_of_true (h.other hen ha) fun t ht => absurd ht (Action.ne_call ha t)

/-- **Wakeups.** Every call is answered by one event for its tick until a wakeup has followed, if
and only if all calls meet the condition. -/
theorem answered_iff (h : Run period past c) : Always Answered past c ↔ CallsMeet period past := by
  induction h with
  | init => exact iff_of_true ⟨forall_mem_nil _, nodup_nil⟩ trivial
  | @step past c a hrun hen ih =>
    show Always Answered past c ∧ _ ↔ CallsMeet period past ∧ _
    rw [ih]
    exact and_congr_right fun hmeet => (ih.mpr hmeet).last.act_iff (run_invariant hrun) hen

/-- Tick `15` is asked for twice before tick `10`, and tick `20` in the wakeup at tick `15`. -/
theorem answered_iff_runs : ∃ past c, Run 10 past c ∧ c.curTick = 20 ∧ Always Answered past c := by
  have hrun : (perform 10 [.call 15, .advance 4, .call 15, .advance 15, .fire, .call 20, .advance 20]
      [] init).map (fun x => (x.2.curTick, decide (CallsMeet 10 x.1))) = some (20, true) := by
    decide +kernel
  obtain ⟨x, hx, hview⟩ := Option.map_eq_some_iff.mp hrun
  obtain ⟨htick, hmeet⟩ := Prod.mk.inj hview
  have hx := run_of_perform 10 .init hx
  exact ⟨x.1, x.2, hx, htick, (answered_iff hx).mpr (of_decide_eq_true hmeet)⟩

/-- A wakeup that calls for its own tick is not woken again, and two calls for a tick between clock
edges make two events. -/
theorem wakeups_lost_and_doubled : (∃ past c, Run 10 past c ∧ 10 ∈ waiting past ∧ c.curTick = 11) ∧
    ∃ past c, Run 10 past c ∧ c.events = [15, 15] := by
  constructor
  · have hrun : (perform 10 [.call 10, .advance 10, .fire, .call 10, .advance 11] [] init).map
        (fun x => (waiting x.1, x.2.curTick)) = some ([10], 11) := by
      decide +kernel
    obtain ⟨x, hx, hview⟩ := Option.map_eq_some_iff.mp hrun
    obtain ⟨hwait, htick⟩ := Prod.mk.inj hview
    exact ⟨x.1, x.2, run_of_perform 10 .init hx, hwait ▸ mem_singleton.mpr rfl, htick⟩
  · have hrun : (perform 10 [.advance 12, .call 15, .call 15] [] init).map
        (fun x => x.2.events) = some [15, 15] := by
      decide +kernel
    obtain ⟨x, hx, hview⟩ := Option.map_eq_some_iff.mp hrun
    exact ⟨x.1, x.2, run_of_perform 10 .init hx, hview⟩

end NocSwap.Ruby.Consumer
