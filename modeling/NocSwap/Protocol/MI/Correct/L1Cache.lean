import NocSwap.Protocol.MI.L1Cache
import NocSwap.Protocol.MI.Line
import NocSwap.Ruby.Correct.Sequencer

/-!
# MI_example: what a transition of a cache does
-/

namespace NocSwap.MIExample

open L1Line List

open Ruby (DataBlock SequencerLine Callback Packet)

variable {B : Nat}

def L1Event.isForward : L1Event → Bool
  | .Fwd_GETX | .Inv | .Writeback_Ack | .Writeback_Nack => true
  | _ => false

namespace L1Line

def ShapeOk (l : L1Line B) : Prop :=
  match l.tbe, l.cacheEntry with
  | none, none => True
  | none, some e => e.cacheState = .M ∨ e.cacheState = .I ∧ e.locked = none
  | some t, some e =>
    t.tbeState = e.cacheState ∧ (e.cacheState = .IS ∨ e.cacheState = .IM) ∧ e.locked = none
  | some t, none => t.tbeState = .MI ∨ t.tbeState = .MII ∨ t.tbeState = .II

structure Ok (l : L1Line B) : Prop where
  shape : l.ShapeOk
  blocked : l.sequencer.blocked = true → l.getState = .M ∨ l.getState = .MI

theorem getState_of_tbe {l : L1Line B} {t : L1TBE B} (ht : l.tbe = some t) :
    l.getState = t.tbeState := by
  unfold getState
  rw [ht]

theorem getState_eq_I {l : L1Line B} (ht : l.tbe = none)
    (hs : ∀ e ∈ l.cacheEntry, e.cacheState = .I) : l.getState = .I := by
  unfold getState
  rw [ht]
  cases he : l.cacheEntry with
  | none => rfl
  | some e => exact hs e he

theorem Ok.blocked_eq_false_of_I {l : L1Line B} (h : l.Ok) (hs : l.getState = .I) :
    l.sequencer.blocked = false := by
  by_contra hne
  have hM := h.blocked (Bool.not_eq_false _ ▸ hne)
  rw [hs] at hM
  rcases hM with hM | hM <;> cases hM

def entryData (l : L1Line B) : DataBlock B := l.cacheEntry.elim DataBlock.clear L1Entry.dataBlk

def tbeData (l : L1Line B) : DataBlock B := l.tbe.elim DataBlock.clear L1TBE.dataBlk

def abs (l : L1Line B) : CacheState (DataBlock B) :=
  match l.getState with
  | .I => .I
  | .IS => .IS
  | .IM => .IM
  | .M => .M l.entryData
  | .MI => .MI l.tbeData
  | .MII => .MII l.tbeData
  | .II => .II

end L1Line

namespace L1Cache

def requestMsg (c : L1Context B) (type : CoherenceRequestType) (dataBlk : DataBlock B) :
    RequestMsg B where
  addr := c.address
  type := type
  requestor := .L1Cache c.machineID
  source := .L1Cache c.machineID
  destination := .Directory c.home
  dataBlk := dataBlk

def dataMsg (c : L1Context B) (destination : MachineID) (dataBlk : DataBlock B) :
    ResponseMsg B where
  addr := c.address
  sender := .L1Cache c.machineID
  destination := destination
  dataBlk := dataBlk

def loadCallback (pkt : Packet B) (b : DataBlock B) : Callback B := ⟨pkt, true, b, b⟩

def llsc (i : Nat) (pkt : Packet B) (locked : Option Nat) : Bool × Option (Option Nat) :=
  SequencerLine.handleLlsc i pkt.kind.primaryType (some locked)

def storeCallback (i : Nat) (pkt : Packet B) (e : L1Entry B) : Callback B :=
  ⟨pkt, (llsc i pkt e.locked).1, e.dataBlk,
    SequencerLine.hitCallback pkt (llsc i pkt e.locked).1 e.dataBlk⟩

def storeLine (i : Nat) (pkt : Packet B) (e : L1Entry B) (seq : SequencerLine B) : L1Line B where
  cacheEntry := some { e with
    dataBlk := (storeCallback i pkt e).after
    locked := (llsc i pkt e.locked).2.getD e.locked }
  tbe := none
  sequencer := { seq with
    writeRequest := none
    blocked :=
      if pkt.kind.primaryType = .Locked_RMW_Read then true
      else if pkt.kind.primaryType = .Locked_RMW_Write then false
      else seq.blocked }

inductive Step (c : L1Context B) (l : L1Line B) : L1Event → L1Work B → Prop
  | loadHit {event : L1Event} {e : L1Entry B} {pkt : Packet B}
      (hev : event = .Load ∨ event = .Ifetch) (he : l.cacheEntry = some e) (ht : l.tbe = none)
      (hs : e.cacheState = .M) (hr : l.sequencer.readRequest = some pkt)
      (hp : pkt.kind.primaryType.isReadCallback = true) :
      Step c l event
        { line := { l with sequencer := { l.sequencer with readRequest := none } }
          callbacks := [loadCallback pkt e.dataBlk]
          dequeued := [.mandatoryQueue_in] }
  | storeHit {e : L1Entry B} {pkt : Packet B} (he : l.cacheEntry = some e) (ht : l.tbe = none)
      (hs : e.cacheState = .M) (hr : l.sequencer.writeRequest = some pkt) :
      Step c l .Store
        { line := storeLine c.machineID pkt e l.sequencer
          callbacks := [storeCallback c.machineID pkt e]
          dequeued := [.mandatoryQueue_in] }
  | miss {event : L1Event} {next : L1State}
      (hev : (event = .Load ∨ event = .Ifetch) ∧ next = .IS ∨ event = .Store ∧ next = .IM)
      (ht : l.tbe = none) (hs : ∀ e ∈ l.cacheEntry, e.cacheState = .I) :
      Step c l event
        { line := { l with
            cacheEntry := some { l.cacheEntry.getD {} with cacheState := next }
            tbe := some { tbeState := next } }
          requests := [requestMsg c .GETX DataBlock.clear]
          dequeued := [.mandatoryQueue_in] }
  | dataLoad {e : L1Entry B} {t : L1TBE B} {m : ResponseMsg B} {pkt : Packet B}
      (hm : c.inMsg = .response m) (he : l.cacheEntry = some e) (ht : l.tbe = some t)
      (hs : t.tbeState = .IS) (hr : l.sequencer.readRequest = some pkt)
      (hp : pkt.kind.primaryType.isReadCallback = true) :
      Step c l .Data
        { line :=
            { cacheEntry := some { e with cacheState := .M, dataBlk := m.dataBlk }
              sequencer := { l.sequencer with readRequest := none } }
          callbacks := [loadCallback pkt m.dataBlk]
          dequeued := [.responseNetwork_in] }
  | dataStore {e : L1Entry B} {t : L1TBE B} {m : ResponseMsg B} {pkt : Packet B}
      (hm : c.inMsg = .response m) (he : l.cacheEntry = some e) (ht : l.tbe = some t)
      (hs : t.tbeState = .IM) (hr : l.sequencer.writeRequest = some pkt) :
      Step c l .Data
        { line := storeLine c.machineID pkt { e with cacheState := .M, dataBlk := m.dataBlk }
            l.sequencer
          callbacks := [storeCallback c.machineID pkt { e with cacheState := .M, dataBlk := m.dataBlk }]
          dequeued := [.responseNetwork_in] }
  | forward {e : L1Entry B} {m : RequestMsg B} (hm : c.inMsg = .forward m)
      (he : l.cacheEntry = some e) (ht : l.tbe = none) (hs : e.cacheState = .M) :
      Step c l .Fwd_GETX
        { line := { l with cacheEntry := some { e with cacheState := .I, locked := none } }
          responses := [dataMsg c m.requestor e.dataBlk]
          dequeued := [.forwardRequestNetwork_in] }
  | drop (ht : l.tbe = none) (hs : ∀ e ∈ l.cacheEntry, e.cacheState = .I) :
      Step c l .Replacement { line := { l with cacheEntry := none } }
  | replace {event : L1Event} {e : L1Entry B} (hev : event = .Replacement ∨ event = .Inv)
      (he : l.cacheEntry = some e) (ht : l.tbe = none) (hs : e.cacheState = .M) :
      Step c l event
        { line := { l with cacheEntry := none, tbe := some { tbeState := .MI, dataBlk := e.dataBlk } }
          requests := [requestMsg c .PUTX e.dataBlk] }
  | inv (hs : l.getState = .I ∨ l.getState = .MI) :
      Step c l .Inv { line := l, dequeued := [.forwardRequestNetwork_in] }
  | wbAck {t : L1TBE B} (he : l.cacheEntry = none) (ht : l.tbe = some t) (hs : t.tbeState = .MI) :
      Step c l .Writeback_Ack
        { line := { l with tbe := none }, dequeued := [.forwardRequestNetwork_in] }
  | forwardMI {t : L1TBE B} {m : RequestMsg B} (hm : c.inMsg = .forward m)
      (he : l.cacheEntry = none) (ht : l.tbe = some t) (hs : t.tbeState = .MI) :
      Step c l .Fwd_GETX
        { line := { l with tbe := some { t with tbeState := .II } }
          responses := [dataMsg c m.requestor t.dataBlk]
          dequeued := [.forwardRequestNetwork_in] }
  | wbNackMI {t : L1TBE B} (he : l.cacheEntry = none) (ht : l.tbe = some t)
      (hs : t.tbeState = .MI) :
      Step c l .Writeback_Nack
        { line := { l with tbe := some { t with tbeState := .MII } }
          dequeued := [.forwardRequestNetwork_in] }
  | forwardMII {t : L1TBE B} {m : RequestMsg B} (hm : c.inMsg = .forward m)
      (he : l.cacheEntry = none) (ht : l.tbe = some t) (hs : t.tbeState = .MII) :
      Step c l .Fwd_GETX
        { line := { l with tbe := none }
          responses := [dataMsg c m.requestor t.dataBlk]
          dequeued := [.forwardRequestNetwork_in] }
  | wbNackII {t : L1TBE B} (he : l.cacheEntry = none) (ht : l.tbe = some t)
      (hs : t.tbeState = .II) :
      Step c l .Writeback_Nack
        { line := { l with tbe := none }, dequeued := [.forwardRequestNetwork_in] }

def InMsgOk (m : L1InMsg B) : L1Event → Prop
  | .Fwd_GETX => ∃ f, m = .forward f
  | .Data => ∃ r, m = .response r
  | _ => True

def HasRead (seq : SequencerLine B) : Prop :=
  ∃ pkt, seq.readRequest = some pkt ∧ pkt.kind.primaryType.isReadCallback = true

def HasWrite (seq : SequencerLine B) : Prop :=
  ∃ pkt, seq.writeRequest = some pkt ∧ pkt.kind.primaryType.isWriteCallback = true

def RequestOk (l : L1Line B) : L1Event → Prop
  | .Load | .Ifetch => HasRead l.sequencer
  | .Store => HasWrite l.sequencer
  | .Data =>
    match l.getState with
    | .IS => HasRead l.sequencer
    | _ => HasWrite l.sequencer
  | _ => True

inductive Fails (c : L1Context B) (l : L1Line B) (event : L1Event) : Fault → Prop
  | invalidTransition (h : transition l.getState event = none) :
      Fails c l event (.invalidTransition (.L1Cache l.getState event))
  | tbeSize (h : c.tbeAvail = false) : Fails c l event (.assertion .tbeSize)
  | cacheAvail (hev : event = .Load ∨ event = .Ifetch ∨ event = .Store) (hl : l.cacheEntry = none)
      (h : c.cacheAvail = false) : Fails c l event (.assertion .cacheAvail)
  | request {a : Ruby.Assertion} (h : ¬ RequestOk l event) : Fails c l event (.assertion a)

section Outcome

variable {c : L1Context B} {l : L1Line B} {event : L1Event} {st next : L1State}
  {actions : List L1Action}

theorem doTransition_eq (hst : l.getState = st) (h : transition st event = some (actions, next))
    (hz : L1Action.z_stall ∉ actions) :
    doTransition c event l = do
      let w ← actions.foldlM (act c) { line := l }
      return some { w with line := (w.line.setState next).setAccessPermission next } := by
  subst hst
  unfold doTransition
  rw [h]
  exact if_neg hz

variable {w : L1Work B} {e : L1Entry B}

theorem loadHit_outcome (he : w.line.cacheEntry = some e) :
    Outcome (loadHit w)
      (fun w' => ∃ pkt, w.line.sequencer.readRequest = some pkt ∧
        pkt.kind.primaryType.isReadCallback = true ∧ w' = { w with
          line := { w.line with sequencer := { w.line.sequencer with readRequest := none } }
          callbacks := w.callbacks ++ [loadCallback pkt e.dataBlk] })
      fun f => ¬ HasRead w.line.sequencer ∧ ∃ a, f = .assertion a := by
  obtain ⟨⟨_, _, ⟨_ | pkt, _, _⟩⟩, _, _, _, _⟩ := w
  all_goals cases he
  · exact ⟨by simp [HasRead], _, rfl⟩
  · show Outcome ((require _ _ >>= fun _ => _) >>= fun _ => _) _ _
    rw [outcome_bind, outcome_bind, outcome_require]
    refine ⟨fun hp => ⟨pkt, rfl, hp, ?_⟩, fun hp => ⟨by simpa [HasRead] using hp, _, rfl⟩⟩
    rw [SequencerLine.hitCallback_of_isReadCallback _ hp]
    rfl

theorem storeHit_outcome (i : Nat) (he : w.line.cacheEntry = some e) :
    Outcome (storeHit i w)
      (fun w' => ∃ pkt, w.line.sequencer.writeRequest = some pkt ∧ w' = { w with
        line := { storeLine i pkt e w.line.sequencer with tbe := w.line.tbe }
        callbacks := w.callbacks ++ [storeCallback i pkt e] })
      fun f => ¬ HasWrite w.line.sequencer ∧ ∃ a, f = .assertion a := by
  obtain ⟨⟨_, _, ⟨_, _ | pkt, _⟩⟩, _, _, _, _⟩ := w
  all_goals cases he
  · exact ⟨by simp [HasWrite], _, rfl⟩
  · show Outcome ((require _ _ >>= fun _ => _) >>= fun _ => _) _ _
    rw [outcome_bind, outcome_bind, outcome_require]
    exact ⟨fun _ => ⟨pkt, rfl, rfl⟩, fun hp => ⟨by simpa [HasWrite] using hp, _, rfl⟩⟩

abbrev Covered (c : L1Context B) (event : L1Event) (l : L1Line B) : Prop :=
  Outcome (doTransition c event l) (fun o => ∀ w ∈ o, Step c l event w) (Fails c l event)

theorem outcome_step (hw : Step c l event w) (h : doTransition c event l = .ok (some w)) :
    Covered c event l := by
  unfold Covered
  rw [h]
  rintro w' hw'
  cases hw'
  exact hw

theorem outcome_stall (hst : l.getState = st)
    (h : transition st event = some ([.z_stall], next)) : Covered c event l := by
  subst hst
  unfold Covered doTransition
  rw [h]
  exact fun _ hw => absurd hw (Option.not_mem_none _)

theorem outcome_invalid (hst : l.getState = st) (h : transition st event = none) :
    Covered c event l := by
  subst hst
  unfold Covered doTransition
  rw [h]
  exact .invalidTransition h

theorem outcome_fail {e : Fault} (he : Fails c l event e) (h : doTransition c event l = .error e) :
    Covered c event l := by
  unfold Covered
  rw [h]
  exact he

/-- A transition in which only the callback of the sequencer can fail. -/
theorem outcome_hit {x : Except Fault (L1Work B)} {k : L1Work B → Except Fault (L1Work B)}
    {k' : L1Work B → Except Fault (Option (L1Work B))} {Q : L1Work B → Prop} {p : Prop}
    (h : Outcome x Q fun f => ¬ p ∧ ∃ a, f = .assertion a)
    (hstep : ∀ w, Q w → ∃ w', (k w >>= k') = .ok (some w') ∧ Step c l event w')
    (hreq : RequestOk l event → p) :
    Outcome ((x >>= k) >>= k') (fun o => ∀ w ∈ o, Step c l event w) (Fails c l event) := by
  rw [outcome_bind, outcome_bind]
  refine h.mono (fun w hw => ?_) ?_
  · obtain ⟨w', hk, hw'⟩ := hstep w hw
    rw [← outcome_bind, hk]
    rintro _ ⟨⟩
    exact hw'
  · rintro _ ⟨hp, a, rfl⟩
    exact .request fun h => hp (hreq h)

theorem outcome_M (hm : InMsgOk c.inMsg event) (he : l.cacheEntry = some e) (ht : l.tbe = none)
    (hs : e.cacheState = .M) : Covered c event l := by
  have hst : l.getState = .M := by
    unfold getState
    rw [ht, he]
    exact hs
  obtain ⟨_, _, seq⟩ := l
  obtain ⟨_, b, locked⟩ := e
  cases he
  cases ht
  cases hs
  cases event with
  | Load | Ifetch =>
    unfold Covered
    rw [doTransition_eq hst rfl (by decide), foldlM_cons]
    refine outcome_hit (loadHit_outcome rfl) ?_ id
    rintro _ ⟨pkt, hr, hp, rfl⟩
    exact ⟨_, rfl, .loadHit (by simp) rfl rfl rfl hr hp⟩
  | Store =>
    unfold Covered
    rw [doTransition_eq hst rfl (by decide), foldlM_cons]
    refine outcome_hit (storeHit_outcome _ rfl) ?_ id
    rintro _ ⟨pkt, hr, rfl⟩
    exact ⟨_, rfl, .storeHit rfl rfl rfl hr⟩
  | Fwd_GETX =>
    obtain ⟨m, hm⟩ := hm
    refine outcome_step (.forward hm rfl rfl rfl) ?_
    rw [doTransition_eq hst rfl (by decide)]
    obtain ⟨i, x, home, inMsg, avail, tbeAvail⟩ := c
    cases hm
    rfl
  | Replacement | Inv =>
    obtain ⟨i, x, home, inMsg, avail, tbeAvail⟩ := c
    cases tbeAvail with
    | true =>
      exact outcome_step (.replace (by simp) rfl rfl rfl) rfl
    | false =>
      exact outcome_fail (.tbeSize rfl) rfl
  | Data | Writeback_Ack | Writeback_Nack =>
    exact outcome_invalid hst rfl

theorem outcome_miss
    (hev : (event = .Load ∨ event = .Ifetch) ∧ next = .IS ∨ event = .Store ∧ next = .IM)
    (hst : l.getState = .I) (ht : l.tbe = none) (hs : ∀ e ∈ l.cacheEntry, e.cacheState = .I) :
    Covered c event l := by
  have htr : transition .I event =
      some ([.v_allocateTBE, .i_allocateL1CacheBlock, .a_issueRequest, .m_popMandatoryQueue], next) := by
    rcases hev with ⟨rfl | rfl, rfl⟩ | ⟨rfl, rfl⟩ <;> rfl
  have hnext : next ≠ .I := by
    rcases hev with ⟨-, rfl⟩ | ⟨-, rfl⟩ <;> decide
  have heq := doTransition_eq (c := c) hst htr (by decide)
  obtain ⟨i, x, home, inMsg, avail, tbeAvail⟩ := c
  obtain ⟨entry, _, seq⟩ := l
  cases ht
  cases tbeAvail with
  | false => exact outcome_fail (.tbeSize rfl) heq
  | true =>
    cases entry with
    | none =>
      cases avail with
      | false =>
        refine outcome_fail (.cacheAvail ?_ rfl rfl) heq
        rcases hev with ⟨rfl | rfl, -⟩ | ⟨rfl, -⟩ <;> simp
      | true =>
        refine outcome_step (.miss hev rfl hs) (heq.trans ?_)
        show Except.ok (some _) = _
        simp [setState, setAccessPermission, hnext, requestMsg]
    | some e =>
      refine outcome_step (.miss hev rfl hs) (heq.trans ?_)
      show Except.ok (some _) = _
      simp [setState, setAccessPermission, hnext, requestMsg]

theorem outcome_I (ht : l.tbe = none)
    (hs : ∀ e ∈ l.cacheEntry, e.cacheState = .I ∧ e.locked = none) :
    Covered c event l := by
  have hI : ∀ e ∈ l.cacheEntry, e.cacheState = .I := fun e he => (hs e he).1
  have hst := getState_eq_I ht hI
  cases event with
  | Load => exact outcome_miss (.inl ⟨.inl rfl, rfl⟩) hst ht hI
  | Ifetch => exact outcome_miss (.inl ⟨.inr rfl, rfl⟩) hst ht hI
  | Store => exact outcome_miss (.inr ⟨rfl, rfl⟩) hst ht hI
  | Inv =>
    refine outcome_step (.inv (.inl hst)) ?_
    rw [doTransition_eq hst rfl (by decide)]
    obtain ⟨_ | ⟨st, b, locked⟩, _, seq⟩ := l
    · cases ht
      rfl
    · cases ht
      cases (hs _ rfl).1
      cases (hs _ rfl).2
      rfl
  | Replacement =>
    refine outcome_step (.drop ht hI) ?_
    rw [doTransition_eq hst rfl (by decide)]
    obtain ⟨entry, _, seq⟩ := l
    cases ht
    rfl
  | Data | Fwd_GETX | Writeback_Ack | Writeback_Nack =>
    exact outcome_invalid hst rfl

variable {t : L1TBE B}

section

variable (hm : InMsgOk c.inMsg event)
include hm

theorem outcome_IS (he : l.cacheEntry = some e) (ht : l.tbe = some t)
    (hs : t.tbeState = .IS) : Covered c event l := by
  have hst : l.getState = .IS := (getState_of_tbe ht).trans hs
  cases event with
  | Data =>
    obtain ⟨m, hm⟩ := hm
    obtain ⟨_, _, seq⟩ := l
    obtain ⟨i, x, home, inMsg, avail, tbeAvail⟩ := c
    cases he
    cases ht
    cases hm
    unfold Covered
    rw [doTransition_eq hst rfl (by decide), foldlM_cons]
    refine outcome_hit (x := loadHit _) (loadHit_outcome rfl) ?_ fun hreq => ?_
    · rintro _ ⟨pkt, hr, hp, rfl⟩
      exact ⟨_, rfl, .dataLoad (e := e) rfl rfl rfl hs hr hp⟩
    · simpa only [RequestOk, hst] using hreq
  | Load | Ifetch | Store | Replacement | Fwd_GETX | Inv =>
    exact outcome_stall hst rfl
  | Writeback_Ack | Writeback_Nack =>
    exact outcome_invalid hst rfl

theorem outcome_IM (he : l.cacheEntry = some e) (ht : l.tbe = some t)
    (hs : t.tbeState = .IM) : Covered c event l := by
  have hst : l.getState = .IM := (getState_of_tbe ht).trans hs
  cases event with
  | Data =>
    obtain ⟨m, hm⟩ := hm
    obtain ⟨_, _, seq⟩ := l
    obtain ⟨i, x, home, inMsg, avail, tbeAvail⟩ := c
    cases he
    cases ht
    cases hm
    unfold Covered
    rw [doTransition_eq hst rfl (by decide), foldlM_cons]
    refine outcome_hit (x := storeHit _ _) (storeHit_outcome i rfl) ?_ fun hreq => ?_
    · rintro _ ⟨pkt, hr, rfl⟩
      exact ⟨_, rfl, .dataStore rfl rfl rfl hs hr⟩
    · simpa only [RequestOk, hst] using hreq
  | Load | Ifetch | Store | Replacement | Fwd_GETX | Inv =>
    exact outcome_stall hst rfl
  | Writeback_Ack | Writeback_Nack =>
    exact outcome_invalid hst rfl

theorem outcome_MI (he : l.cacheEntry = none) (ht : l.tbe = some t)
    (hs : t.tbeState = .MI) : Covered c event l := by
  have hst : l.getState = .MI := (getState_of_tbe ht).trans hs
  obtain ⟨_, _, seq⟩ := l
  obtain ⟨_, b⟩ := t
  cases he
  cases ht
  cases hs
  cases event with
  | Fwd_GETX =>
    obtain ⟨m, hm⟩ := hm
    refine outcome_step (.forwardMI hm rfl rfl rfl) ?_
    rw [doTransition_eq hst rfl (by decide)]
    obtain ⟨i, x, home, inMsg, avail, tbeAvail⟩ := c
    cases hm
    rfl
  | Inv =>
    exact outcome_step (.inv (.inr hst)) rfl
  | Writeback_Ack =>
    exact outcome_step (.wbAck rfl rfl rfl) rfl
  | Writeback_Nack =>
    exact outcome_step (.wbNackMI rfl rfl rfl) rfl
  | Load | Ifetch | Store | Replacement => exact outcome_stall hst rfl
  | Data => exact outcome_invalid hst rfl

theorem outcome_MII (he : l.cacheEntry = none) (ht : l.tbe = some t)
    (hs : t.tbeState = .MII) : Covered c event l := by
  have hst : l.getState = .MII := (getState_of_tbe ht).trans hs
  obtain ⟨_, _, seq⟩ := l
  obtain ⟨_, b⟩ := t
  cases he
  cases ht
  cases hs
  cases event with
  | Fwd_GETX =>
    obtain ⟨m, hm⟩ := hm
    refine outcome_step (.forwardMII hm rfl rfl rfl) ?_
    rw [doTransition_eq hst rfl (by decide)]
    obtain ⟨i, x, home, inMsg, avail, tbeAvail⟩ := c
    cases hm
    rfl
  | Load | Ifetch | Store | Replacement => exact outcome_stall hst rfl
  | Data | Inv | Writeback_Ack | Writeback_Nack =>
    exact outcome_invalid hst rfl

end

theorem outcome_II (he : l.cacheEntry = none) (ht : l.tbe = some t) (hs : t.tbeState = .II) :
    Covered c event l := by
  have hst : l.getState = .II := (getState_of_tbe ht).trans hs
  obtain ⟨_, _, seq⟩ := l
  obtain ⟨_, b⟩ := t
  cases he
  cases ht
  cases hs
  cases event with
  | Writeback_Nack =>
    exact outcome_step (.wbNackII rfl rfl rfl) rfl
  | Load | Ifetch | Store | Replacement => exact outcome_stall hst rfl
  | Data | Fwd_GETX | Inv | Writeback_Ack =>
    exact outcome_invalid hst rfl

theorem doTransition_outcome (hl : l.ShapeOk) (hm : InMsgOk c.inMsg event) :
    Outcome (doTransition c event l) (fun o => ∀ w ∈ o, Step c l event w) (Fails c l event) := by
  unfold L1Line.ShapeOk at hl
  cases ht : l.tbe with
  | none =>
    cases he : l.cacheEntry with
    | none =>
      refine outcome_I ht fun e he' => ?_
      rw [he] at he'
      exact absurd he' (Option.not_mem_none e)
    | some e =>
      rw [ht, he] at hl
      rcases hl with hs | hs
      · exact outcome_M hm he ht hs
      · refine outcome_I ht fun e' he' => ?_
        rw [he] at he'
        cases he'
        exact hs
  | some t =>
    cases he : l.cacheEntry with
    | none =>
      rw [ht, he] at hl
      rcases hl with hs | hs | hs
      · exact outcome_MI hm he ht hs
      · exact outcome_MII hm he ht hs
      · exact outcome_II he ht hs
    | some e =>
      rw [ht, he] at hl
      obtain ⟨hte, hs | hs, -⟩ := hl
      · exact outcome_IS hm he ht (hte.trans hs)
      · exact outcome_IM hm he ht (hte.trans hs)

section

variable (h : Step c l event w)
include h

theorem Step.ok (hl : l.Ok)
    (hb : event.isForward = true → l.sequencer.blocked = false) : w.line.Ok := by
  have hblocked : event.isForward = true → ∀ l' : L1Line B, l'.sequencer = l.sequencer →
      l'.sequencer.blocked = true → l'.getState = .M ∨ l'.getState = .MI := by
    intro hev l' hl' hl''
    rw [hl', hb hev] at hl''
    exact absurd hl'' Bool.false_ne_true
  have hshape := hl.shape
  unfold L1Line.ShapeOk at hshape
  cases h with
  | loadHit hev he ht hs hr hp =>
    refine ⟨?_, fun _ => ?_⟩
    · simp [L1Line.ShapeOk, he, ht, hs]
    · simp [getState, he, ht, hs]
  | storeHit he ht hs hr =>
    refine ⟨?_, fun _ => ?_⟩
    · simp [L1Line.ShapeOk, storeLine, hs]
    · simp [getState, storeLine, hs]
  | dataLoad hm he ht hs hr hp | dataStore hm he ht hs hr =>
    exact ⟨.inl rfl, fun _ => .inl rfl⟩
  | miss hev ht hs =>
    have hfree := hl.blocked_eq_false_of_I (getState_eq_I ht hs)
    constructor
    · have hlocked : (l.cacheEntry.getD {}).locked = none := by
        cases he : l.cacheEntry with
        | none => rfl
        | some e =>
          rw [ht, he] at hshape
          rcases hshape with hM | hI
          · exact absurd ((hs e he).symm.trans hM) (by decide)
          · exact hI.2
      rcases hev with ⟨-, rfl⟩ | ⟨-, rfl⟩
      · exact ⟨rfl, .inl rfl, hlocked⟩
      · exact ⟨rfl, .inr rfl, hlocked⟩
    · intro hblk
      exact absurd (hfree.symm.trans hblk) Bool.false_ne_true
  | forward hm he ht hs =>
    refine ⟨?_, hblocked rfl _ rfl⟩
    simp [L1Line.ShapeOk, ht]
  | drop ht hs =>
    have hfree := hl.blocked_eq_false_of_I (getState_eq_I ht hs)
    constructor
    · simp [L1Line.ShapeOk, ht]
    · intro hblk
      exact absurd (hfree.symm.trans hblk) Bool.false_ne_true
  | replace hev he ht hs => exact ⟨.inl rfl, fun _ => .inr rfl⟩
  | inv hs => exact hl
  | wbAck he ht hs | forwardMI hm he ht hs | wbNackMI he ht hs | forwardMII hm he ht hs
  | wbNackII he ht hs =>
    refine ⟨?_, hblocked rfl _ rfl⟩
    simp [L1Line.ShapeOk, he]

theorem Step.addr :
    (∀ m ∈ w.requests, m.addr = c.address) ∧ ∀ m ∈ w.responses, m.addr = c.address := by
  cases h <;> simp [requestMsg, dataMsg]

theorem Step.dequeued : (.forwardRequestNetwork_in ∈ w.dequeued → event.isForward = true) ∧
      (.responseNetwork_in ∈ w.dequeued → event = .Data) := by
  cases h <;> simp [L1Event.isForward]

theorem Step.callbacks_of_isForward (hev : event.isForward = true) : w.callbacks = [] := by
  cases h with
  | loadHit hev' => rcases hev' with rfl | rfl <;> exact absurd hev Bool.false_ne_true
  | storeHit | dataLoad | dataStore => exact absurd hev Bool.false_ne_true
  | _ => rfl

end

theorem eq_GETX_of_forwardEvent {t : CoherenceRequestType}
    (h : forwardEvent t = .ok .Fwd_GETX) : t = .GETX := by
  cases t with
  | GETX => rfl
  | _ => cases h

theorem isForward_of_forwardEvent {t : CoherenceRequestType} (h : forwardEvent t = .ok event) :
    event.isForward = true := by
  cases t with
  | PUTX => cases h
  | _ =>
    cases h
    rfl

theorem event_of_mandatory {t : Ruby.RubyRequestType}
    (h : mandatory_request_type_to_event t = .ok event) :
    event = .Load ∨ event = .Ifetch ∨ event = .Store := by
  cases t with
  | LD | IFETCH | ST | ATOMIC =>
    cases h
    simp
  | _ => cases h

end Outcome

end L1Cache

end NocSwap.MIExample
