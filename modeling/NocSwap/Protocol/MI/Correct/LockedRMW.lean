import NocSwap.Protocol.MI.Correct.Log

/-!
# MI_example: locked read-modify-write
-/

namespace NocSwap.MIExample

open List

open Ruby (DataBlock Callback Packet SequencerLine)

variable {B : Nat}

variable {c : L1Context B} {l : L1Line B} {event : L1Event} {w : L1Work B}

theorem L1Cache.Step.locked_M (h : L1Cache.Step c l event w) (hM : l.getState = .M)
    (hev : event.isForward = false) (hr : event ≠ .Replacement) (hb : l.sequencer.blocked = true)
    (hw : ∀ cb ∈ w.callbacks, cb.pkt.kind ≠ .lockedRMWWrite) :
    w.line.getState = .M ∧ w.line.sequencer.blocked = true := by
  unfold L1Line.getState at hM
  cases h with
  | @loadHit _ e pkt _ he ht hs =>
    refine ⟨?_, hb⟩
    simp [L1Line.getState, he, ht, hs]
  | @storeHit e pkt he ht hs hr =>
    refine ⟨hs, ?_⟩
    have hkind : pkt.kind.primaryType ≠ .Locked_RMW_Write := by
      have hne : pkt.kind ≠ .lockedRMWWrite := hw _ (mem_singleton_self _)
      cases hk : pkt.kind <;> simp_all [Ruby.PacketKind.primaryType]
    simp [storeLine, hkind, hb]
  | @miss _ next _ ht hs =>
    rw [ht] at hM
    cases he : l.cacheEntry with
    | none =>
      rw [he] at hM
      cases hM
    | some e =>
      rw [he] at hM
      cases (hs e he).symm.trans hM
  | dataLoad hm he ht hs | dataStore hm he ht hs =>
    rw [ht] at hM
    cases hs.symm.trans hM
  | replace hev' =>
    rcases hev' with rfl | rfl
    · exact absurd rfl hr
    · cases hev
  | drop => exact absurd rfl hr
  | _ => cases hev

theorem L1Cache.Step.locks (h : L1Cache.Step c l event w) {cb : Callback B} (hcb : cb ∈ w.callbacks)
    (hkind : cb.pkt.kind = .lockedRMWRead) :
    w.line.getState = .M ∧ w.line.sequencer.blocked = true := by
  cases h with
  | @loadHit _ e pkt hev he ht hs hr hp | @dataLoad e t m pkt hm he ht hs hr hp =>
    cases mem_singleton.mp hcb
    rw [show pkt.kind = .lockedRMWRead from hkind] at hp
    cases hp
  | @storeHit e pkt he ht hs =>
    cases mem_singleton.mp hcb
    refine ⟨hs, ?_⟩
    simp [storeLine, show pkt.kind = .lockedRMWRead from hkind, Ruby.PacketKind.primaryType]
  | @dataStore e t m pkt =>
    cases mem_singleton.mp hcb
    refine ⟨rfl, ?_⟩
    simp [storeLine, show pkt.kind = .lockedRMWRead from hkind, Ruby.PacketKind.primaryType]
  | _ => cases hcb

namespace System

variable {P : Params} {s s' : System B} {l : Label B} {i x : Nat}

structure Locked (s : System B) (i x : Nat) : Prop where
  state : (s.l1 i x).getState = .M
  blocked : (s.l1 i x).sequencer.blocked = true

theorem StepTo.locked (hs : StepTo P s l s') (h : Locked s i x) (hr : ¬ Replaces P s l i x)
    (hw : ∀ cb, s'.log = s.log ++ [.callback i x cb] → cb.pkt.kind ≠ .lockedRMWWrite) :
    Locked s' i x := by
  rcases hs.l1_cases i x with ⟨event, m, w, htr⟩ | hsame
  · have hline : s'.l1 i x = w.line := by simp [htr.eq, applyL1, setL1]
    have hev : event.isForward = false := by
      by_contra hne
      have hfree := htr.blocked (.inl (Bool.not_eq_false _ ▸ hne))
      exact absurd (hfree.symm.trans h.blocked) Bool.false_ne_true
    have hcb : ∀ cb ∈ w.callbacks, cb.pkt.kind ≠ .lockedRMWWrite := by
      intro cb hcb
      rcases htr.step.callbacks with hnil | ⟨cb', hone, -⟩
      · rw [hnil] at hcb
        exact absurd hcb not_mem_nil
      · rw [hone] at hcb
        cases mem_singleton.mp hcb
        apply hw
        simp [htr.eq, applyL1, hone]
    obtain ⟨hM, hb⟩ :=
      htr.step.locked_M h.state hev (fun he => hr (htr.replaces he)) h.blocked hcb
    exact ⟨by rw [hline]; exact hM, by rw [hline]; exact hb⟩
  · refine ⟨?_, hsame.blocked.trans h.blocked⟩
    rw [← h.state]
    unfold L1Line.getState
    rw [hsame.cacheEntry, hsame.tbe]

def ByOthers (i x : Nat) (e : LogEntry B) : Prop :=
  (∃ j cb, j ≠ i ∧ e = .callback j x cb) ∨ (∃ d b b', e = .memoryWrite x d b b') ∨
    ∃ b, e = .dmaRead x b

theorem StepTo.locked_of_callback (hs : StepTo P s l s') {cb : Callback B}
    (hcb : s'.log = s.log ++ [.callback i x cb]) (hkind : cb.pkt.kind = .lockedRMWRead) :
    Locked s' i x := by
  rcases hs.l1_cases i x with ⟨event, m, w, htr⟩ | hsame
  · have hline : s'.l1 i x = w.line := by simp [htr.eq, applyL1, setL1]
    have hmem : cb ∈ w.callbacks := by
      rw [htr.eq] at hcb
      obtain ⟨cb', hone, heq⟩ := map_eq_singleton_iff.mp (append_cancel_left hcb)
      cases heq
      rw [hone]
      exact mem_singleton_self cb
    obtain ⟨hM, hb⟩ := htr.step.locks hmem hkind
    exact ⟨by rw [hline]; exact hM, by rw [hline]; exact hb⟩
  · exact absurd hcb (hsame.log cb)

theorem LogStep.not_byOthers (h : s.Inv P) (hs : LogStep s s') (hM : (s.l1 i x).getState = .M)
    {e : LogEntry B} (he : s'.log = s.log ++ [e]) : ¬ ByOthers i x e := by
  obtain ⟨hmem, hread, hcb⟩ := hs.of_M h hM he
  rintro (⟨j, cb, hj, rfl⟩ | ⟨d, b, b', rfl⟩ | ⟨b, rfl⟩)
  · exact hj (hcb j cb rfl)
  · exact hmem d b b' rfl
  · exact hread b rfl

/-- Since the log was `log`, the line is locked and nobody else has used it, unless a
`Locked_RMW_Write` was called back. -/
def LockedSince (log : List (LogEntry B)) (i x : Nat) (s : System B) : Prop :=
  ∃ es, s.log = log ++ es ∧
    ((∀ cb, .callback i x cb ∈ es → cb.pkt.kind ≠ .lockedRMWWrite) →
      Locked s i x ∧ ∀ e ∈ es, ¬ ByOthers i x e)

theorem StepTo.lockedSince (hs : StepTo P s l s') (hinv : s.Inv P) (hr : ¬ Replaces P s l i x)
    {log : List (LogEntry B)} (h : LockedSince log i x s) : LockedSince log i x s' := by
  obtain ⟨es, hes, hlocked⟩ := h
  rcases hs.logStep.log_eq with hlog | ⟨e, hlog⟩
  · refine ⟨es, hlog.trans hes, fun hw => ?_⟩
    obtain ⟨hl, hothers⟩ := hlocked hw
    refine ⟨hs.locked hl hr fun cb hcb => ?_, hothers⟩
    simp [hlog] at hcb
  · refine ⟨es ++ [e], by rw [hlog, hes, append_assoc], fun hw => ?_⟩
    obtain ⟨hl, hothers⟩ := hlocked fun cb hcb => hw cb (mem_append_left _ hcb)
    constructor
    · refine hs.locked hl hr fun cb hcb => hw cb ?_
      cases singleton_inj.mp (append_cancel_left (hlog.symm.trans hcb))
      exact mem_append_right _ (mem_singleton_self _)
    · intro e' he'
      rcases mem_append.mp he' with he' | he'
      · exact hothers e' he'
      · cases mem_singleton.mp he'
        exact hs.logStep.not_byOthers hinv hl.state hlog

/-- A cache that does not replace the line keeps it in `M` from the callback of a `Locked_RMW_Read`
to that of the `Locked_RMW_Write`, and nobody else uses it. -/
theorem lockedRMW_atomic {memory : Nat → DataBlock B} {ls ls' : List (Label B)} {s₀ s₁ : System B}
    (h₀ : (init memory).run P ls = .ok s₀) (h₁ : s₀.exec P l = .ok s₁) {cb : Callback B}
    (hcb : s₁.log = s₀.log ++ [.callback i x cb]) (hkind : cb.pkt.kind = .lockedRMWRead)
    (hs : s₁.run P ls' = .ok s)
    (hrep : ∀ before l after s', ls' = before ++ l :: after → s₁.run P before = .ok s' →
      ¬ Replaces P s' l i x)
    {es : List (LogEntry B)} (hes : s.log = s₁.log ++ es)
    (hwrite : ∀ cb, .callback i x cb ∈ es → cb.pkt.kind ≠ .lockedRMWWrite) :
    (s.l1 i x).getState = .M ∧ ∀ e ∈ es, ¬ ByOthers i x e := by
  have hinv₀ := run_inv h₀
  have hto₁ := (exec_outcome hinv₀.ok l).of_ok h₁
  have hrun := run_induction_from (P := P) (hto₁.inv hinv₀)
    (p := fun ls' s => (∀ before l after s', ls' = before ++ l :: after →
      s₁.run P before = .ok s' → ¬ Replaces P s' l i x) → LockedSince s₁.log i x s) ?_ ?_ hs
  · obtain ⟨es', hes', hlocked⟩ := hrun.2 hrep
    cases append_cancel_left (hes.symm.trans hes')
    exact ⟨(hlocked hwrite).1.state, (hlocked hwrite).2⟩
  · intro _
    exact ⟨[], by simp, fun _ => ⟨hto₁.locked_of_callback hcb hkind, by simp⟩⟩
  · intro ls' s l s' hs hinv ih hto _ hrep
    refine hto.lockedSince hinv (hrep ls' l [] s rfl hs) (ih fun before l' after s'' heq => ?_)
    exact hrep before l' (after ++ [l]) s'' (by simp [heq])

/-- A cache has locked a line, and the request of another cache for the line is forwarded to it. -/
theorem lockedRMW_atomic_forwarded :
    let P : Params := ⟨1, fun _ => 0, fun _ _ => 0, fun _ => 1, 1, 1, 1, true⟩
    let rmw : Packet 1 := ⟨.lockedRMWRead, 0, [0], by decide⟩
    let write : Packet 1 := ⟨.write, 0, [7], by decide⟩
    ∃ s₀ s₁ s, (init fun _ _ => 5).run P (missSteps 0 0 0 rmw).dropLast = .ok s₀ ∧
      s₀.exec P (.responseIn 0) = .ok s₁ ∧ s₁.run P (forwardSteps 1 0 0 0 write) = .ok s ∧
      (s.l1 0 0).getState = .M := by
  intro P rmw write
  let locked : LogEntry 1 := .callback 0 0 ⟨rmw, true, fun _ => 5, fun _ => 5⟩
  have hrun : (((init fun _ _ => 5).run P (missSteps 0 0 0 rmw).dropLast).toOption.bind fun s₀ =>
      (s₀.exec P (.responseIn 0)).toOption.bind fun s₁ =>
        (s₁.run P (forwardSteps 1 0 0 0 write)).toOption.map fun s => (s₀.log, s₁.log, s.log)) =
          some ([], [locked], [locked]) := by
    decide +kernel
  obtain ⟨s₀, h₀, hrun⟩ := Option.bind_eq_some_iff.mp hrun
  obtain ⟨s₁, h₁, hrun⟩ := Option.bind_eq_some_iff.mp hrun
  obtain ⟨s, hs, hlog⟩ := Option.map_eq_some_iff.mp hrun
  obtain ⟨hlog₀, hlog⟩ := Prod.mk.inj hlog
  obtain ⟨hlog₁, hlog⟩ := Prod.mk.inj hlog
  have hcb : s₁.log = s₀.log ++ [locked] := by rw [hlog₁, hlog₀]; rfl
  have hes : s.log = s₁.log ++ [] := by rw [hlog, hlog₁]; rfl
  refine ⟨s₀, s₁, s, eq_ok_of_toOption h₀, eq_ok_of_toOption h₁, eq_ok_of_toOption hs, ?_⟩
  refine (lockedRMW_atomic (eq_ok_of_toOption h₀) (eq_ok_of_toOption h₁) hcb rfl
    (eq_ok_of_toOption hs) ?_ hes fun cb hcb => absurd hcb not_mem_nil).1
  intro before l after s' heq _ hrep
  have hmem : l ∈ forwardSteps 1 0 0 0 write := by
    rw [heq]
    exact mem_append_right _ (mem_cons_self ..)
  rw [hrep.1] at hmem
  simp [forwardSteps] at hmem

/-- A cache with one way replaces the locked line 0 for a load of line 1; then another stores to it.
-/
theorem lockedRMW_replaced :
    let P : Params := ⟨2, fun _ => 0, fun _ _ => 0, fun _ => 1, 2, 2, 1, true⟩
    let rmw : Packet 1 := ⟨.lockedRMWRead, 0, [0], by decide⟩
    let read : Packet 1 := ⟨.read, 0, [0], by decide⟩
    let write : Packet 1 := ⟨.write, 0, [7], by decide⟩
    let block : DataBlock 1 := DataBlock.setData [5] 0 fun _ => 5
    let locked : LogEntry 1 := .callback 0 0 ⟨rmw, true, fun _ => 5, fun _ => 5⟩
    let stored : LogEntry 1 := .callback 1 0 ⟨write, true, block, DataBlock.setData [7] 0 block⟩
    ∃ s₀ s₁ s, (init fun _ _ => 5).run P (missSteps 0 0 0 rmw).dropLast = .ok s₀ ∧
      s₀.exec P (.responseIn 0) = .ok s₁ ∧ s₁.log = s₀.log ++ [locked] ∧
      s₁.run P ([.makeRequest 0 1 read, .deliver .mandatory 0, .mandatoryIn 0 0,
        .deliver .request 0, .requestIn 0, .serve 0, .deliver .memory 0, .memoryIn 0] ++
          missSteps 1 0 0 write) = .ok s ∧
      s.log = s₁.log ++ [.memoryWrite 0 none (fun _ => 5) block, stored] ∧
      (s.l1 0 0).getState = .MI ∧ (s.l1 1 0).getState = .M := by
  intro P rmw read write block locked stored
  have hrun : (((init fun _ _ => 5).run P (missSteps 0 0 0 rmw).dropLast).toOption.bind fun s₀ =>
      (s₀.exec P (.responseIn 0)).toOption.bind fun s₁ =>
        (s₁.run P ([.makeRequest 0 1 read, .deliver .mandatory 0, .mandatoryIn 0 0,
          .deliver .request 0, .requestIn 0, .serve 0, .deliver .memory 0, .memoryIn 0] ++
            missSteps 1 0 0 write)).toOption.map fun s =>
              (s₀.log, s₁.log, s.log, (s.l1 0 0).getState, (s.l1 1 0).getState)) =
      some ([], [locked], [locked, .memoryWrite 0 none (fun _ => 5) block, stored], .MI, .M) := by
    decide +kernel
  obtain ⟨s₀, h₀, hrun⟩ := Option.bind_eq_some_iff.mp hrun
  obtain ⟨s₁, h₁, hrun⟩ := Option.bind_eq_some_iff.mp hrun
  obtain ⟨s, hs, hlog⟩ := Option.map_eq_some_iff.mp hrun
  simp only [Prod.mk.injEq] at hlog
  obtain ⟨hlog₀, hlog₁, hlog, hMI, hM⟩ := hlog
  refine ⟨s₀, s₁, s, eq_ok_of_toOption h₀, eq_ok_of_toOption h₁, ?_, eq_ok_of_toOption hs, ?_,
    hMI, hM⟩
  · rw [hlog₁, hlog₀]
    rfl
  · rw [hlog, hlog₁]
    rfl

end System

end NocSwap.MIExample
