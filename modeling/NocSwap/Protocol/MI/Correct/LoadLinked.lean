import NocSwap.Lib.History
import NocSwap.Protocol.MI.Correct.Log

/-!
# MI_example: load-linked and store-conditional
-/

namespace NocSwap.MIExample

open List

open Ruby (DataBlock Callback Packet SequencerLine)

variable {B : Nat}

def LogEntry.writes (x : Nat) : LogEntry B → Bool
  | .callback _ y cb => y = x && cb.isStore
  | .memoryWrite y .. => y = x
  | _ => false

def Reserved (i x : Nat) (log : List (LogEntry B)) : Prop :=
  ∃ t₁ ll t₂, log = t₁ ++ .callback i x ll :: t₂ ∧ ll.pkt.kind = .loadLocked ∧
    ∀ e ∈ t₂, e.writes x = false

theorem Reserved.append {i x : Nat} {log es : List (LogEntry B)} (h : Reserved i x log)
    (hes : ∀ e ∈ es, e.writes x = false) : Reserved i x (log ++ es) := by
  obtain ⟨t₁, ll, t₂, rfl, hk, ht₂⟩ := h
  refine ⟨t₁, ll, t₂ ++ es, by simp, hk, fun e he => ?_⟩
  exact (mem_append.mp he).elim (ht₂ e) (hes e)

variable {c : L1Context B} {l : L1Line B} {event : L1Event} {w : L1Work B}

/-- A reservation after a transition was made by it, or was there before and the entry is not
written. -/
theorem L1Cache.Step.locked (h : L1Cache.Step c l event w)
    (hown : ∀ e k, l.cacheEntry = some e → e.locked = some k → k = c.machineID) {e' : L1Entry B}
    {k : Nat} (he' : w.line.cacheEntry = some e') (hk : e'.locked = some k) :
    (k = c.machineID ∧ ∃ cb, w.callbacks = [cb] ∧ cb.pkt.kind = .loadLocked) ∨
      (∃ e, l.cacheEntry = some e ∧ e.locked = some k) ∧ ∀ cb ∈ w.callbacks, cb.isStore = false := by
  -- a store callback leaves no reservation, unless it is that of a load-linked
  have hstore : ∀ (pkt : Packet B) (e : L1Entry B), (∀ j, e.locked = some j → j = c.machineID) →
      (llsc c.machineID pkt e.locked).2.getD e.locked = some k →
      k = c.machineID ∧ pkt.kind = .loadLocked := by
    intro pkt e he hlocked
    obtain ⟨htype, hkc⟩ := SequencerLine.of_handleLlsc_locked he hlocked
    exact ⟨hkc, SequencerLine.primaryType_eq_Load_Linked.mp htype⟩
  have hload : ∀ (pkt : Packet B) b, pkt.kind.primaryType.isReadCallback = true →
      ∀ cb ∈ [loadCallback pkt b], cb.isStore = false := by
    intro pkt b hp cb hcb
    cases mem_singleton.mp hcb
    exact SequencerLine.isStore_of_isReadCallback hp
  cases h with
  | @loadHit _ e pkt hev he ht hs hr hp =>
    exact .inr ⟨⟨e', he', hk⟩, hload pkt e.dataBlk hp⟩
  | @storeHit e pkt he ht hs hr =>
    cases he'
    obtain ⟨hkc, hkind⟩ := hstore pkt e (fun j => hown e j he) hk
    exact .inl ⟨hkc, _, rfl, hkind⟩
  | @dataLoad e t m pkt hm he ht hs hr hp =>
    cases he'
    exact .inr ⟨⟨e, he, hk⟩, hload pkt m.dataBlk hp⟩
  | @dataStore e t m pkt hm he ht hs hr =>
    cases he'
    obtain ⟨hkc, hkind⟩ := hstore pkt { e with cacheState := .M, dataBlk := m.dataBlk }
      (fun j => hown e j he) hk
    exact .inl ⟨hkc, _, rfl, hkind⟩
  | @miss _ next hev ht hs =>
    cases he'
    cases he : l.cacheEntry with
    | none =>
      rw [he] at hk
      cases hk
    | some e =>
      rw [he] at hk
      exact .inr ⟨⟨e, rfl, hk⟩, fun cb hcb => absurd hcb not_mem_nil⟩
  | inv hs => exact .inr ⟨⟨e', he', hk⟩, fun cb hcb => absurd hcb not_mem_nil⟩
  | forward =>
    cases he'
    cases hk
  | drop | replace => cases he'
  | wbAck he | forwardMI _ he | wbNackMI he | forwardMII _ he | wbNackII he =>
    cases he.symm.trans he'

theorem L1Cache.Step.locked_of_storeCond (h : L1Cache.Step c l event w) {cb : Callback B}
    (hcb : cb ∈ w.callbacks) (hk : cb.pkt.kind = .storeCond) (hs : cb.success = true) :
    ∃ e, l.cacheEntry = some e ∧ e.locked = some c.machineID := by
  cases h with
  | @loadHit _ e pkt hev he ht hst hr hp | @dataLoad e t m pkt hm he ht hst hr hp =>
    cases mem_singleton.mp hcb
    rw [show pkt.kind = .storeCond from hk] at hp
    cases hp
  | @storeHit e pkt he | @dataStore e t m pkt hm he =>
    cases mem_singleton.mp hcb
    have htype : pkt.kind.primaryType = .Store_Conditional := by
      rw [show pkt.kind = .storeCond from hk]
      rfl
    refine ⟨e, he, SequencerLine.locked_of_handleLlsc ?_⟩
    rw [← htype]
    exact hs
  | _ => cases hcb

namespace System

variable {P : Params} {s s' : System B} {l : Label B} {i x : Nat}

def ReservationOk (i x : Nat) (s : System B) : Prop :=
  ∀ e k, (s.l1 i x).cacheEntry = some e → e.locked = some k → k = i ∧ Reserved i x s.log

theorem getState_of_locked (h : s.Ok P) {e : L1Entry B} {k : Nat}
    (he : (s.l1 i x).cacheEntry = some e) (hk : e.locked = some k) : (s.l1 i x).getState = .M := by
  have hshape := (h.l1 i x).shape
  unfold L1Line.ShapeOk at hshape
  unfold L1Line.getState
  rw [he] at hshape ⊢
  cases ht : (s.l1 i x).tbe with
  | none =>
    rw [ht] at hshape
    rcases hshape with hM | ⟨-, hnone⟩
    · exact hM
    · cases hnone.symm.trans hk
  | some t =>
    rw [ht] at hshape
    cases hshape.2.2.symm.trans hk

theorem StepTo.reservationOk (hinv : s.Inv P) (hs : StepTo P s l s') (h : ReservationOk i x s) :
    ReservationOk i x s' := by
  intro e k he hk
  rcases hs.l1_cases i x with ⟨event, m, w, htr⟩ | hsame
  · have hline : (s'.l1 i x) = w.line := by simp [htr.eq, applyL1, setL1]
    rw [hline] at he
    rcases htr.step.locked (fun e k he hk => (h e k he hk).1) he hk with
      ⟨hki, cb, hcb, hkind⟩ | ⟨⟨e₀, he₀, hk₀⟩, hno⟩
    · refine ⟨hki, s.log, cb, [], ?_, hkind, fun e he => absurd he not_mem_nil⟩
      simp [htr.eq, applyL1, hcb]
    · obtain ⟨hki, hres⟩ := h e₀ k he₀ hk₀
      refine ⟨hki, ?_⟩
      rw [htr.eq]
      refine hres.append fun e he => ?_
      obtain ⟨cb, hcb, rfl⟩ := mem_map.mp he
      simp [LogEntry.writes, hno cb hcb]
  · rw [hsame.cacheEntry] at he
    obtain ⟨hki, hres⟩ := h e k he hk
    refine ⟨hki, ?_⟩
    rcases hs.logStep.log_eq with hlog | ⟨e', hlog⟩
    · rwa [hlog]
    · -- the cache is in `M`: nobody else writes
      obtain ⟨hmem, -, hcb⟩ := hs.logStep.of_M hinv (getState_of_locked hinv.ok he hk) hlog
      rw [hlog]
      refine hres.append fun e'' he'' => ?_
      cases mem_singleton.mp he''
      cases e' with
      | callback j y cb =>
        rcases eq_or_ne y x with rfl | hy
        · cases hcb j cb rfl
          exact absurd hlog (hsame.log cb)
        · simp [LogEntry.writes, hy]
      | memoryWrite y d b b' =>
        rcases eq_or_ne y x with rfl | hy
        · exact absurd rfl (hmem d b b')
        · simp [LogEntry.writes, hy]
      | dmaRead | dmaCallback => rfl

def StoreCondOk (before : List (LogEntry B)) (e : LogEntry B) : Prop :=
  ∀ i x cb, e = .callback i x cb → cb.pkt.kind = .storeCond →
    (cb.success = true → Reserved i x before) ∧ (cb.success = false → cb.after = cb.before)

theorem StepTo.storeCondOk (hs : StepTo P s l s') (h : ∀ i x, ReservationOk i x s)
    (hlog : History.Each StoreCondOk s.log) : History.Each StoreCondOk s'.log := by
  cases hs.logStep with
  | none heq => rwa [heq]
  | @callback i x cb m heq hcb hm =>
    rw [heq, History.each_append_singleton]
    refine ⟨hlog, fun i' x' cb' he hkind => ?_⟩
    cases he
    refine ⟨fun hsucc => ?_, fun hfail => hcb.after_eq (by simp [Callback.isStore, hkind, hfail])⟩
    rcases hs.l1_cases i x with ⟨event, m, w, htr⟩ | hsame
    · have hmem : cb ∈ w.callbacks := by
        rw [htr.eq] at heq
        obtain ⟨cb', hcb', heq'⟩ := map_eq_singleton_iff.mp (append_cancel_left heq)
        cases heq'
        rw [hcb']
        exact mem_singleton_self cb
      obtain ⟨e, he, hk⟩ := htr.step.locked_of_storeCond hmem hkind hsucc
      exact (h i x e i he hk).2
    · exact absurd heq (hsame.log cb)
  | memoryWrite heq | dmaRead heq | dmaCallback heq =>
    rw [heq, History.each_append_singleton]
    exact ⟨hlog, fun i x cb he => by cases he⟩

/-- A store-conditional succeeds only if nobody has written to the line since the load-linked, and
one that fails leaves the block as it is. -/
theorem storeCond_sound {memory : Nat → DataBlock B} {ls : List (Label B)}
    (hs : (init memory).run P ls = .ok s) {before after : List (LogEntry B)} {i x : Nat}
    {cb : Callback B} (hlog : s.log = before ++ .callback i x cb :: after)
    (hkind : cb.pkt.kind = .storeCond) :
    (cb.success = true → ∃ t₁ ll t₂, before = t₁ ++ .callback i x ll :: t₂ ∧
        ll.pkt.kind = .loadLocked ∧ ∀ e ∈ t₂, e.writes x = false) ∧
      (cb.success = false → cb.after = cb.before) := by
  have hrun := run_induction (P := P)
    (p := fun _ s => (∀ i x, ReservationOk i x s) ∧ History.Each StoreCondOk s.log) ?_ ?_ hs
  · exact hrun.2.2 before _ after hlog i x cb rfl hkind
  · exact ⟨fun i x e k he => absurd he.symm (Option.some_ne_none e), History.each_nil⟩
  · intro ls s l s' _ hinv ih hto _
    exact ⟨fun i x => hto.reservationOk hinv (ih.1 i x), hto.storeCondOk ih.1 ih.2⟩

/-- A load-linked that misses and a store-conditional that succeeds. -/
theorem storeCond_sound_success :
    let P : Params := ⟨1, fun _ => 0, fun _ _ => 0, fun _ => 1, 1, 1, 1, false⟩
    let ll : Packet 1 := ⟨.loadLocked, 0, [0], by decide⟩
    let sc : Packet 1 := ⟨.storeCond, 0, [7], by decide⟩
    let linked : LogEntry 1 := .callback 0 0 ⟨ll, true, fun _ => 5, fun _ => 5⟩
    let stored : Callback 1 := ⟨sc, true, fun _ => 5, DataBlock.setData [7] 0 fun _ => 5⟩
    ∃ s, (init fun _ _ => 5).run P (missSteps 0 0 0 ll ++ hitSteps 0 0 sc) = .ok s ∧
      s.log = [linked] ++ [.callback 0 0 stored] ∧
      ∃ t₁ cb t₂, [linked] = t₁ ++ .callback 0 0 cb :: t₂ ∧ cb.pkt.kind = .loadLocked ∧
        ∀ e ∈ t₂, e.writes 0 = false := by
  intro P ll sc linked stored
  refine exists_ok_of_toOption (·.log) ([linked] ++ [.callback 0 0 stored]) (by decide +kernel) ?_
  intro s hs hlog
  exact ⟨hlog, (storeCond_sound hs hlog rfl).1 rfl⟩

end System

end NocSwap.MIExample
