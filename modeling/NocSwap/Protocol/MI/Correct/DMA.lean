import NocSwap.Protocol.MI.DMA

/-!
# MI_example: what a transition of a DMA controller does
-/

namespace NocSwap.MIExample

open Ruby (DataBlock)

variable {B : Nat}

/-- A DMA controller has a TBE for a line while it waits; the one message of a request is for all
its bytes. -/
structure DMALine.Ok (l : DMALine B) : Prop where
  tbe : ∀ t ∈ l.tbe, t.tbeState ≠ .READY
  request : ∀ r ∈ l.request, r.bytesIssued = r.pkt.data.length ∧ r.bytesCompleted = 0

variable {l : DMALine B} {r : DMARequest B}

theorem DMALine.Ok.dataCallback_eq (hl : l.Ok)
    (hr : l.request = some r) (hw : r.pkt.write = false) (b : DataBlock B) :
    l.dataCallback b =
      .ok ({ l with request := none }, ⟨r.pkt, b.getData r.pkt.offset r.pkt.data.length⟩) := by
  obtain ⟨hi, hc⟩ := hl.request r hr
  unfold dataCallback issueNext
  rw [hr]
  simp [orFail, require, hw, hi, hc, Bind.bind, Except.bind, pure, Except.pure]

theorem DMALine.Ok.ackCallback_eq (hl : l.Ok) (hr : l.request = some r) :
    l.ackCallback = .ok ({ l with request := none }, ⟨r.pkt, r.pkt.data⟩) := by
  obtain ⟨hi, -⟩ := hl.request r hr
  unfold ackCallback issueNext
  rw [hr]
  simp [orFail, require, hi, Bind.bind, Except.bind, pure, Except.pure]

theorem DMALine.dataCallback_error (hr : l.request = some r) (hw : r.pkt.write = true)
    (b : DataBlock B) : l.dataCallback b = .error (.assertion .dmaRequest) := by
  unfold dataCallback
  rw [hr]
  simp [orFail, require, hw, Bind.bind, Except.bind]

namespace DMA

inductive Step (c : DMAContext B) (l : DMALine B) : DMAEvent → DMAWork B → Prop
  | send {event : DMAEvent} {type : DMARequestType} {next : DMAState} {m : SequencerMsg B}
      (hev : event = .ReadRequest ∧ type = .READ ∧ next = .BUSY_RD ∨
        event = .WriteRequest ∧ type = .WRITE ∧ next = .BUSY_WR)
      (hm : c.inMsg = .request m) (ht : l.tbe = none) :
      Step c l event
        { line := { l with tbe := some { tbeState := next } }
          requests := [dmaRequest c type m]
          dequeued := [.dmaRequestQueue_in] }
  | data {m : DMAResponseMsg B} {r : DMARequest B} (hm : c.inMsg = .response m)
      (hs : l.getState = .BUSY_RD) (hr : l.request = some r) (hw : r.pkt.write = false) :
      Step c l .Data
        { line := {}
          callbacks := [⟨r.pkt, m.dataBlk.getData r.pkt.offset r.pkt.data.length⟩]
          dequeued := [.dmaResponseQueue_in]
          wokenUp := true }
  | ack {r : DMARequest B} (hs : l.getState = .BUSY_WR) (hr : l.request = some r) :
      Step c l .Ack
        { line := {}
          callbacks := [⟨r.pkt, r.pkt.data⟩]
          dequeued := [.dmaResponseQueue_in]
          wokenUp := true }
  | stall {event : DMAEvent} (hev : event = .ReadRequest ∨ event = .WriteRequest)
      (hs : l.getState ≠ .READY) : Step c l event { line := l, stalled := true }

def InMsgOk (m : DMAInMsg B) : DMAEvent → Prop
  | .ReadRequest | .WriteRequest => ∃ r, m = .request r
  | .Data | .Ack => ∃ r, m = .response r

def RequestOk (l : DMALine B) : DMAEvent → Prop
  | .Data => ∃ r, l.request = some r ∧ r.pkt.write = false
  | .Ack => ∃ r, l.request = some r
  | _ => True

inductive Fails (c : DMAContext B) (l : DMALine B) (event : DMAEvent) : Fault → Prop
  | invalidTransition (h : transition l.getState event = none) :
      Fails c l event (.invalidTransition (.DMA l.getState event))
  | tbeSize (h : c.tbeAvail = false) : Fails c l event (.assertion .tbeSize)
  | request (h : ¬ RequestOk l event) : Fails c l event (.assertion .dmaRequest)

section Outcome

variable {c : DMAContext B} {l : DMALine B} {event : DMAEvent}

variable {w : DMAWork B}

theorem outcome_step {E : Fault → Prop} (hw : Step c l event w)
    (h : doTransition c event l = .ok w) : Outcome (doTransition c event l) (Step c l event) E := by
  rw [h]
  exact hw

theorem outcome_fail {Q : DMAWork B → Prop} {e : Fault} (he : Fails c l event e)
    (h : doTransition c event l = .error e) :
    Outcome (doTransition c event l) Q (Fails c l event) := by
  rw [h]
  exact he

theorem outcome_READY (hm : InMsgOk c.inMsg event) (ht : l.tbe = none) :
    Outcome (doTransition c event l) (Step c l event) (Fails c l event) := by
  obtain ⟨_, request⟩ := l
  obtain ⟨k, x, home, inMsg, tbeAvail⟩ := c
  cases ht
  cases event with
  | ReadRequest =>
    obtain ⟨m, rfl⟩ := hm
    cases tbeAvail with
    | true => exact outcome_step (.send (.inl ⟨rfl, rfl, rfl⟩) rfl rfl) rfl
    | false => exact outcome_fail (.tbeSize rfl) rfl
  | WriteRequest =>
    obtain ⟨m, rfl⟩ := hm
    cases tbeAvail with
    | true => exact outcome_step (.send (.inr ⟨rfl, rfl, rfl⟩) rfl rfl) rfl
    | false => exact outcome_fail (.tbeSize rfl) rfl
  | Data | Ack => exact outcome_fail (.invalidTransition rfl) rfl

theorem doTransition_eq {st next : DMAState} {actions : List DMAAction} (hst : l.getState = st)
    (h : transition st event = some (actions, next)) :
    doTransition c event l = do
      let w ← actions.foldlM (act c) { line := l }
      return { w with line := w.line.setState next } := by
  subst hst
  unfold doTransition
  rw [h]
  rfl

variable {t : DMATBE B}

section

variable (hl : l.Ok) (hm : InMsgOk c.inMsg event)
include hl hm

theorem outcome_BUSY_RD (ht : l.tbe = some t) (hs : t.tbeState = .BUSY_RD) :
    Outcome (doTransition c event l) (Step c l event) (Fails c l event) := by
  obtain ⟨_, request⟩ := l
  obtain ⟨_, b⟩ := t
  obtain ⟨k, x, home, inMsg, tbeAvail⟩ := c
  cases ht
  cases hs
  cases event with
  | ReadRequest => exact outcome_step (.stall (.inl rfl) DMAState.noConfusion) rfl
  | WriteRequest => exact outcome_step (.stall (.inr rfl) DMAState.noConfusion) rfl
  | Data =>
    obtain ⟨m, rfl⟩ := hm
    cases request with
    | none =>
      refine outcome_fail (.request ?_) rfl
      rintro ⟨r, hr, -⟩
      cases hr
    | some r =>
      cases hw : r.pkt.write with
      | true =>
        refine outcome_fail (.request ?_) ?_
        · rintro ⟨r', hr, hw'⟩
          cases hr
          exact Bool.false_ne_true (hw'.symm.trans hw)
        · rw [doTransition_eq rfl rfl]
          show ((DMALine.dataCallback m.dataBlk _ >>= _) >>= _) >>= _ = _
          rw [DMALine.dataCallback_error rfl hw]
          rfl
      | false =>
        refine outcome_step (.data rfl rfl rfl hw) ?_
        have hl' : DMALine.Ok ⟨some ⟨.BUSY_RD, m.dataBlk⟩, some r⟩ :=
          ⟨fun t ht => by cases ht; exact DMAState.noConfusion, hl.request⟩
        rw [doTransition_eq rfl rfl]
        show ((DMALine.dataCallback m.dataBlk _ >>= _) >>= _) >>= _ = _
        rw [hl'.dataCallback_eq rfl hw]
        rfl
  | Ack => exact outcome_fail (.invalidTransition rfl) rfl

theorem outcome_BUSY_WR (ht : l.tbe = some t) (hs : t.tbeState = .BUSY_WR) :
    Outcome (doTransition c event l) (Step c l event) (Fails c l event) := by
  obtain ⟨_, request⟩ := l
  obtain ⟨_, b⟩ := t
  obtain ⟨k, x, home, inMsg, tbeAvail⟩ := c
  cases ht
  cases hs
  cases event with
  | ReadRequest => exact outcome_step (.stall (.inl rfl) DMAState.noConfusion) rfl
  | WriteRequest => exact outcome_step (.stall (.inr rfl) DMAState.noConfusion) rfl
  | Ack =>
    obtain ⟨m, rfl⟩ := hm
    cases request with
    | none =>
      refine outcome_fail (.request ?_) rfl
      rintro ⟨r, hr⟩
      cases hr
    | some r =>
      refine outcome_step (.ack rfl rfl) ?_
      rw [doTransition_eq rfl rfl]
      show ((DMALine.ackCallback _ >>= _) >>= _) >>= _ = _
      rw [hl.ackCallback_eq rfl]
      rfl
  | Data => exact outcome_fail (.invalidTransition rfl) rfl

theorem doTransition_outcome :
    Outcome (doTransition c event l) (Step c l event) (Fails c l event) := by
  cases ht : l.tbe with
  | none => exact outcome_READY hm ht
  | some t =>
    cases hs : t.tbeState with
    | READY => exact absurd hs (hl.tbe t ht)
    | BUSY_RD => exact outcome_BUSY_RD hl hm ht hs
    | BUSY_WR => exact outcome_BUSY_WR hl hm ht hs

end

theorem Step.ok (h : Step c l event w) (hl : l.Ok) : w.line.Ok := by
  cases h with
  | send hev hm ht =>
    refine ⟨fun t ht => ?_, hl.request⟩
    cases ht
    rcases hev with ⟨-, -, rfl⟩ | ⟨-, -, rfl⟩ <;> exact DMAState.noConfusion
  | data | ack =>
    exact ⟨fun t ht => absurd ht (Option.not_mem_none t), fun r hr => absurd hr (Option.not_mem_none r)⟩
  | stall => exact hl

theorem Step.requests (h : Step c l event w) :
    ∀ r ∈ w.requests, ∃ type m, c.inMsg = .request m ∧ r = dmaRequest c type m := by
  cases h with
  | @send _ type next m hev hm =>
    rintro r hr
    cases List.mem_singleton.mp hr
    exact ⟨type, m, hm, rfl⟩
  | _ => simp

end Outcome

end DMA

end NocSwap.MIExample
