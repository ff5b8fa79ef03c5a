import NocSwap.Lib.History
import NocSwap.Protocol.MI.Correct.Log

/-!
# MI_example: coherence
-/

namespace NocSwap.MIExample

open MsgChannel Multiset List

open Ruby (DataBlock Callback Packet)

variable {B : Nat}

def Label.isDMARequest : Label B → Bool
  | .makeDMARequest .. => true
  | _ => false

def lastStore (x : Nat) (init : DataBlock B) (log : List (LogEntry B)) : DataBlock B :=
  log.foldl (fun b e =>
    match e with
    | .callback _ y cb => if y = x ∧ cb.isStore = true then cb.after else b
    | _ => b) init

def DirState.forDMA : DirState → Bool
  | .I | .M | .IM | .MI => false
  | _ => true

namespace System

variable {P : Params} {s s' : System B} {l : Label B} {x : Nat}

structure NoDMA (s : System B) : Prop where
  mandatory : s.dmaMandatory.content = 0
  requests : s.dmaRequests.content = 0
  dir : ∀ x, (s.dir x).getState.forDMA = false

theorem SameContent.noDMA (h : NoDMA s) (hs : SameContent s s') : NoDMA s' := by
  refine ⟨?_, ?_, fun x => ?_⟩
  · rw [hs.dmaMandatory]
    exact h.mandatory
  · rw [hs.dmaRequests]
    exact h.requests
  · rw [hs.dir]
    exact h.dir x

theorem content_pop_eq_zero {μ : Type} {c : MsgChannel μ} {p : μ → Bool} (h : c.content = 0) :
    (c.pop p).content = 0 := by
  refine eq_zero_of_forall_notMem fun m hm => ?_
  have hmem := mem_content_of_mem_pop hm
  rw [h] at hmem
  exact notMem_zero m hmem

theorem dirStep_forDMA {c : DirContext B} {l : DirLine B} {event : DirEvent} {w : DirWork B}
    (hw : Directory.Step c l event w) (hok : w.line.Ok) (hm : ∀ m, c.inMsg ≠ .dmaRequest m)
    (hl : l.getState.forDMA = false) : w.line.getState.forDMA = false := by
  rw [hok.getState_eq]
  cases hw with
  | fetch | forward | writeback | data | ack | ackWrite | dmaData | dmaAck => rfl
  | nack | recycleRequest | recycleDMARequest =>
    rw [← hok.getState_eq]
    exact hl
  | writebackRead _ _ hs | overwrite _ _ hs =>
    rw [hs] at hl
    exact absurd hl.symm Bool.false_ne_true
  | dmaRead hm' | dmaWrite hm' | dmaInv _ hm' => exact absurd hm' (hm _)

theorem NoDMA.applyDir (h : NoDMA s) {d : Nat} {w : DirWork B}
    (hw : w.line.getState.forDMA = false) : NoDMA (s.applyDir d x w) := by
  refine ⟨h.mandatory, ?_, forall_setDir (p := fun l => l.getState.forDMA = false) h.dir hw⟩
  simp only [System.applyDir]
  split
  · exact content_pop_eq_zero h.requests
  · split
    · rw [content_recycle]
      exact h.requests
    · exact h.requests

theorem NoDMA.applyDMA (h : NoDMA s) {k : Nat} {w : DMAWork B} (hw : w.requests = []) :
    NoDMA (s.applyDMA k x w) := by
  refine ⟨?_, ?_, h.dir⟩
  · simp only [System.applyDMA]
    split
    · exact content_pop_eq_zero h.mandatory
    · split
      · rw [content_recycle]
        exact h.mandatory
      · split
        · rw [content_requeueAll]
          exact h.mandatory
        · exact h.mandatory
  · simp only [System.applyDMA, content_send, hw, h.requests]
    rfl

theorem StepTo.noDMA (hinv : s.Inv P) (h : NoDMA s) (hs : StepTo P s l s')
    (hl : l.isDMARequest = false) : NoDMA s' := by
  have hok := hs.ok hinv
  cases hs with
  | idle => exact h
  | makeRequest | forwardIn | responseIn | mandatoryIn | replacement | serveRead | serveWrite =>
    exact { h with }
  | delayForward | delayResponse => exact SameContent.noDMA h (by constructor <;> simp)
  | @requestIn d m event w hm hev hw | @memoryIn d m w hm hw =>
    have hw' : w.line.Ok := by simpa [applyDir, setDir] using hok.dir m.addr
    exact h.applyDir (dirStep_forDMA hw hw' (fun _ hm' => by cases hm') (h.dir m.addr))
  | dmaRequestIn hm =>
    have hmem := mem_content_of_head hm
    rw [h.requests] at hmem
    exact absurd hmem (notMem_zero _)
  | makeDMARequest => exact absurd hl.symm Bool.false_ne_true
  | dmaMandatoryIn hm =>
    have hmem := mem_content_of_head hm
    rw [h.mandatory] at hmem
    exact absurd hmem (notMem_zero _)
  | @dmaResponseIn k m w hm hw =>
    refine h.applyDMA (List.eq_nil_iff_forall_not_mem.mpr fun r hr => ?_)
    obtain ⟨type, m', hm', -⟩ := hw.requests r hr
    cases hm'
  | deliver v n => exact (sameContent_deliver v n).noDMA h
  | requeue v n => exact (sameContent_requeue v n).noDMA h

theorem NoDMA.not_dmaWritePending (h : NoDMA s) : ¬ s.DMAWritePending x := by
  rintro ⟨hd, -⟩
  have hfor := h.dir x
  rcases hd with hd | hd
  all_goals
    rw [hd] at hfor
    exact absurd hfor.symm Bool.false_ne_true

theorem lastStore_append (init : DataBlock B) (log es : List (LogEntry B)) :
    lastStore x init (log ++ es) = lastStore x (lastStore x init log) es :=
  foldl_append

theorem LogStep.lastStore_eq {v : DataBlock B} (h : LogStep s s') (hv : (line x v s).Inv)
    {es : List (LogEntry B)} (hes : s'.log = s.log ++ es) :
    lastStore x v es = callbacksValue x v es := by
  cases h with
  | none hlog =>
    rw [hlog, self_eq_append_right] at hes
    subst hes
    rfl
  | @callback i y cb m hlog hcb hm =>
    rw [hlog] at hes
    rw [← append_cancel_left hes]
    rcases eq_or_ne y x with rfl | hy
    · cases hst : cb.isStore with
      | true => simp [lastStore, callbacksValue, hst]
      | false =>
        have hafter : cb.after = v := (hcb.after_eq hst).trans (callback_value hcb hv hm).2
        simp [lastStore, callbacksValue, hst, hafter]
    · simp [lastStore, callbacksValue, hy]
  | memoryWrite hlog | dmaRead hlog | dmaCallback hlog =>
    rw [hlog] at hes
    rw [← append_cancel_left hes]
    rfl

def FindsLastStore (x : Nat) (init : DataBlock B) (before : List (LogEntry B)) (e : LogEntry B) :
    Prop :=
  ∀ i cb, e = .callback i x cb → cb.before = lastStore x init before

theorem LogStep.findsLastStore {v : DataBlock B} (h : LogStep s s') {init : DataBlock B}
    (hv : (line x v s).Inv) (hlast : lastStore x init s.log = v)
    (hlog : History.Each (FindsLastStore x init) s.log) :
    History.Each (FindsLastStore x init) s'.log := by
  cases h with
  | none heq => rwa [heq]
  | @callback i y cb m heq hcb hm =>
    rw [heq, History.each_append_singleton]
    refine ⟨hlog, fun i' cb' he => ?_⟩
    cases he
    rw [hlast]
    exact (callback_value hcb hv hm).2
  | memoryWrite heq | dmaRead heq | dmaCallback heq =>
    rw [heq, History.each_append_singleton]
    exact ⟨hlog, fun i' cb' he => by cases he⟩

theorem run_lastStore {memory : Nat → DataBlock B} {ls : List (Label B)}
    (hls : ∀ l ∈ ls, l.isDMARequest = false) (hs : (init memory).run P ls = .ok s) (x : Nat) :
    (line x (lastStore x (memory x) s.log) s).Inv ∧
      History.Each (FindsLastStore x (memory x)) s.log := by
  have hrun := run_induction (P := P)
    (p := fun ls s => (∀ l ∈ ls, l.isDMARequest = false) → NoDMA s ∧
      (line x (lastStore x (memory x) s.log) s).Inv ∧
        History.Each (FindsLastStore x (memory x)) s.log) ?_ ?_ hs
  · exact (hrun.2 hls).2
  · intro _
    exact ⟨⟨rfl, rfl, fun _ => rfl⟩, LineState.inv_init _, History.each_nil⟩
  · intro ls s l s' _ hinv ih hto _ hls
    obtain ⟨hno, hv, hlog⟩ := ih fun l hl => hls l (mem_append_left _ hl)
    have hno' := hto.noDMA hinv hno (hls l (by simp))
    obtain ⟨v', es, hes, hstep, hv'⟩ := hto.refines hinv x (lastStore x (memory x) s.log)
    have hval : v' = lastStore x (memory x) s'.log := by
      rw [hes, lastStore_append, hto.logStep.lastStore_eq hv hes]
      exact hv'.resolve_right hno'.not_dmaWritePending
    rw [hval] at hstep
    exact ⟨hno', hstep.inv hv, hto.logStep.findsLastStore hv rfl hlog⟩

/-- Without DMA at most one cache is in `M` for a line, with no data for it under way, and every
callback finds what the last store has left. -/
theorem coherence {memory : Nat → DataBlock B} {ls : List (Label B)}
    (hls : ∀ l ∈ ls, l.isDMARequest = false) (hs : (init memory).run P ls = .ok s) (x : Nat) :
    (∀ i j, (s.l1 i x).getState = .M → (s.l1 j x).getState = .M → i = j) ∧
      (∀ i, (s.l1 i x).getState = .M →
        (∀ m ∈ s.responses.content, m.addr ≠ x) ∧ (s.dir x).getState ≠ .I) ∧
      ∀ before i cb after, s.log = before ++ .callback i x cb :: after →
        cb.before = lastStore x (memory x) before := by
  have hok := (run_inv hs).ok
  obtain ⟨hv, hlog⟩ := run_lastStore hls hs x
  refine ⟨fun i j hi hj => ?_, fun i hi => ⟨fun m hm haddr => ?_, fun hd => ?_⟩, ?_⟩
  · exact hv.coherent.unique i j (holds_of_M hi) (holds_of_M hj)
  · -- the cache that the data is for would have the right to the line, too
    obtain ⟨j, hj⟩ := hok.msgs.responses m hm
    have hdata : .data j m.dataBlk ∈ (line x (lastStore x (memory x) s.log) s).msgs :=
      mem_lineMsgs_of_response hm (by simp [lineResponse, haddr, hj, MachineID.cache?])
    cases hv.coherent.unique i j (holds_of_M hi) (LineState.holds_of_data (hv.cache j) hdata)
    obtain ⟨b, hb⟩ := abs_of_getState_eq_M hi
    exact ((hv.cache i).notMem_of_M hb m.dataBlk).2 hdata
  · refine hv.coherent.home ?_ i (holds_of_M hi)
    rw [show (line x (lastStore x (memory x) s.log) s).dir = .I from hd]
    rfl
  · intro before i cb after heq
    exact hlog before _ after heq i cb rfl

/-- A cache stores and another one loads: the second callback finds the block of the first. -/
theorem coherence_store_load :
    let P : Params := ⟨1, fun _ => 0, fun _ _ => 0, fun _ => 1, 1, 1, 1, false⟩
    let write : Packet 2 := ⟨.write, 1, [7], by decide⟩
    let read : Packet 2 := ⟨.read, 0, [0, 0], by decide⟩
    let block : DataBlock 2 := DataBlock.setData [7] 1 fun _ => 5
    let written : Callback 2 := ⟨write, true, fun _ => 5, block⟩
    ∃ s, (init fun _ _ => 5).run P (missSteps 0 0 0 write ++ forwardSteps 1 0 0 0 read) = .ok s ∧
      ∃ cb, s.log = [.callback 0 0 written, .callback 1 0 cb] ∧
        cb.before = lastStore 0 (fun _ => 5) [.callback 0 0 written] := by
  intro P write read block written
  refine exists_ok_of_toOption (·.log)
    [.callback 0 0 written, .callback 1 0 ⟨read, true, block, block⟩] (by decide +kernel) ?_
  intro s hs hlog
  exact ⟨_, hlog, (coherence (by decide) hs 0).2.2 [.callback 0 0 written] 1 _ [] hlog⟩

end System

end NocSwap.MIExample
