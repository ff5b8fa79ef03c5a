import NocSwap.Protocol.MI.Correct.Log
import NocSwap.Ruby.Correct.Requests

/-!
# MI_example: the requests of the sequencers
-/

namespace NocSwap.MIExample

open Multiset L1Line MsgChannel

open Ruby (DataBlock Packet SequencerLine RequestToken RequestsOk RequestMove)

variable {B : Nat}

def L1State.tokens : L1State → Multiset RequestToken
  | .IS => {.fetching false}
  | .IM => {.fetching true}
  | _ => 0

inductive Ends (seq seq' : SequencerLine B) : Prop
  | load (hr : seq.readRequest ≠ none) (hr' : seq'.readRequest = none)
      (hw : seq'.writeRequest = seq.writeRequest)
  | store (hw : seq.writeRequest ≠ none) (hw' : seq'.writeRequest = none)
      (hr : seq'.readRequest = seq.readRequest)

theorem Ends.requestMove {seq seq' : SequencerLine B} {t : RequestToken}
    {ts ts' : Multiset RequestToken} (h : Ends seq seq') (hts : ts = t ::ₘ ts') :
    RequestMove seq ts seq' ts' := by
  cases h with
  | load hr hr' hw => exact .load hr hr' hw hts
  | store hw hw' hr => exact .store hw hw' hr hts

inductive L1Tokens (l : L1Line B) (event : L1Event) (w : L1Work B) : Prop
  | idle (hseq : w.line.sequencer = l.sequencer) (ht : w.line.getState.tokens = l.getState.tokens)
      (hd : .mandatoryQueue_in ∉ w.dequeued)
  | hit (hseq : Ends l.sequencer w.line.sequencer) (ht : l.getState.tokens = 0)
      (ht' : w.line.getState.tokens = 0) (hd : .mandatoryQueue_in ∈ w.dequeued)
  | miss (hseq : w.line.sequencer = l.sequencer) (ht : l.getState.tokens = 0)
      (ht' : w.line.getState.tokens = {.fetching (event = .Store)})
      (hd : .mandatoryQueue_in ∈ w.dequeued)
  | data {t : RequestToken} (hseq : Ends l.sequencer w.line.sequencer) (ht : l.getState.tokens = {t})
      (ht' : w.line.getState.tokens = 0) (hd : .mandatoryQueue_in ∉ w.dequeued)

theorem L1Cache.Step.tokens {c : L1Context B} {l : L1Line B} {event : L1Event} {w : L1Work B}
    (h : L1Cache.Step c l event w) : L1Tokens l event w := by
  cases h with
  | loadHit hev he ht hs hr hp =>
    refine .hit (.load (by simp [hr]) rfl rfl) ?_ ?_ (by simp)
    all_goals simp [getState, he, ht, hs, L1State.tokens]
  | storeHit he ht hs hr =>
    refine .hit (.store (by simp [hr]) rfl rfl) ?_ ?_ (by simp)
    all_goals simp [getState, storeLine, he, ht, hs, L1State.tokens]
  | @miss _ next hev ht hs =>
    have hI : l.getState.tokens = 0 := by rw [getState_eq_I ht hs]; rfl
    rcases hev with ⟨rfl | rfl, rfl⟩ | ⟨rfl, rfl⟩
    all_goals exact .miss rfl hI rfl (by simp)
  | dataLoad hm he ht hs hr hp =>
    refine .data (t := .fetching false) (.load (by simp [hr]) rfl rfl) ?_ rfl (by simp)
    simp [getState, ht, hs, L1State.tokens]
  | dataStore hm he ht hs hr =>
    refine .data (t := .fetching true) (.store (by simp [hr]) rfl rfl) ?_ rfl (by simp)
    simp [getState, ht, hs, L1State.tokens]
  | forward hm he ht hs | replace hev he ht hs =>
    refine .idle rfl ?_ (by simp)
    simp [getState, he, ht, hs, L1State.tokens]
  | drop ht hs =>
    refine .idle rfl ?_ (by simp)
    rw [getState_eq_I ht hs]
    simp [getState, ht]
  | inv hs => exact .idle rfl rfl (by simp)
  | wbAck he ht hs | forwardMI hm he ht hs | wbNackMI he ht hs | forwardMII hm he ht hs
  | wbNackII he ht hs =>
    refine .idle rfl ?_ (by simp)
    simp [getState, he, ht, hs, L1State.tokens]

namespace L1Cache

variable {c : L1Context B} {l : L1Line B} {event : L1Event} {w : L1Work B}

theorem Step.of_mandatory_dequeued (h : Step c l event w) (hd : .mandatoryQueue_in ∈ w.dequeued) :
    event = .Load ∨ event = .Ifetch ∨ event = .Store := by
  cases h with
  | loadHit hev => exact hev.imp_right .inl
  | storeHit => exact .inr (.inr rfl)
  | miss hev =>
    rcases hev with ⟨rfl | rfl, -⟩ | ⟨rfl, -⟩
    all_goals simp
  | _ => simp at hd

theorem Step.mandatory_dequeued (h : Step c l event w)
    (hev : event = .Load ∨ event = .Ifetch ∨ event = .Store) : .mandatoryQueue_in ∈ w.dequeued := by
  cases h with
  | loadHit | storeHit | miss => simp
  | replace hev' => rcases hev' with rfl | rfl <;> simp at hev
  | _ => simp at hev

theorem isReadCallback_of_mandatory {t : Ruby.RubyRequestType}
    (h : mandatory_request_type_to_event t = .ok event) :
    (!t.isReadCallback) = decide (event = .Store) := by
  cases t with
  | LD | IFETCH | ST | ATOMIC =>
    cases h
    rfl
  | _ => cases h

end L1Cache

namespace System

variable {P : Params} {s s' : System B} {l : Label B} {i x : Nat}

def queuedRequest (i x : Nat) (m : RubyRequest) : Option RequestToken :=
  if m.cache = i ∧ m.lineAddress = x then some (.queued m.type) else none

def requestTokens (i x : Nat) (s : System B) : Multiset RequestToken :=
  s.mandatory.content.filterMap (queuedRequest i x) + (s.l1 i x).getState.tokens

theorem requestMove_of_eq (hl : s'.l1 i x = s.l1 i x)
    (hm : s'.mandatory.content.filterMap (queuedRequest i x) =
      s.mandatory.content.filterMap (queuedRequest i x)) :
    RequestMove (s.l1 i x).sequencer (s.requestTokens i x) (s'.l1 i x).sequencer
      (s'.requestTokens i x) := by
  refine .idle (by rw [hl]) (by rw [hl]) ?_
  unfold requestTokens
  rw [hl, hm]

theorem requestMove_applyL1 {j y : Nat} {w : L1Work B} {event : L1Event} {m : L1InMsg B}
    (hw : L1Cache.Step (s.l1Context P j y m) (s.l1 j y) event w)
    (hev : ¬ (event = .Load ∨ event = .Ifetch ∨ event = .Store)) :
    RequestMove (s.l1 i x).sequencer (s.requestTokens i x) ((s.applyL1 j y w).l1 i x).sequencer
      ((s.applyL1 j y w).requestTokens i x) := by
  have hd : .mandatoryQueue_in ∉ w.dequeued := fun hd => hev (hw.of_mandatory_dequeued hd)
  have hmand : (s.applyL1 j y w).mandatory = s.mandatory := if_neg hd
  rcases em (i = j ∧ x = y) with ⟨rfl, rfl⟩ | hne
  · have hline : (s.applyL1 i x w).l1 i x = w.line := setL1_self
    unfold requestTokens
    rw [hline, hmand]
    cases hw.tokens with
    | idle hseq ht => exact .idle (by rw [hseq]) (by rw [hseq]) (by rw [ht])
    | hit _ _ _ hd' | miss _ _ _ hd' => exact absurd hd' hd
    | @data t hseq ht ht' =>
      refine hseq.requestMove (t := t) ?_
      rw [ht, ht', add_zero, add_comm, singleton_add]
  · exact requestMove_of_eq (setL1_of_ne hne) (by rw [hmand])

theorem requestMove_mandatoryIn {j : Nat} {m : RubyRequest} {event : L1Event} {w : L1Work B}
    (hm : s.mandatory.head (mandatoryPort j) = some m)
    (hev : L1Cache.mandatory_request_type_to_event m.type = .ok event)
    (hw : L1Cache.Step (s.l1Context P j m.lineAddress (.mandatory m)) (s.l1 j m.lineAddress)
      event w) :
    RequestMove (s.l1 i x).sequencer (s.requestTokens i x)
      ((s.applyL1 j m.lineAddress w).l1 i x).sequencer
      ((s.applyL1 j m.lineAddress w).requestTokens i x) := by
  have hport : m.cache = j := by simpa [mandatoryPort] using pos_of_head hm
  have hd : .mandatoryQueue_in ∈ w.dequeued := hw.mandatory_dequeued (L1Cache.event_of_mandatory hev)
  have hmand : (s.applyL1 j m.lineAddress w).mandatory = s.mandatory.pop (mandatoryPort j) :=
    if_pos hd
  rcases em (i = j ∧ x = m.lineAddress) with ⟨rfl, rfl⟩ | hne
  · have hline : (s.applyL1 i m.lineAddress w).l1 i m.lineAddress = w.line := setL1_self
    have htoken : queuedRequest i m.lineAddress m = some (.queued m.type) := if_pos ⟨hport, rfl⟩
    unfold requestTokens
    rw [hline, hmand, filterMap_content_of_some hm htoken]
    cases hw.tokens with
    | idle _ _ hd' | data _ _ _ hd' => exact absurd hd hd'
    | hit hseq ht ht' => exact hseq.requestMove (by rw [ht, ht', add_zero, add_zero])
    | miss hseq ht ht' =>
      refine .fetch (t := m.type) (by rw [hseq]) (by rw [hseq]) (by rw [ht, add_zero]) ?_
      rw [ht', add_comm, singleton_add, L1Cache.isReadCallback_of_mandatory hev]
  · refine requestMove_of_eq (setL1_of_ne hne) ?_
    rw [hmand]
    refine filterMap_content_of_none hm (if_neg fun h => hne ⟨?_, h.2.symm⟩)
    exact h.1.symm.trans hport

theorem StepTo.requestMove (hs : StepTo P s l s') (i x : Nat) :
    RequestMove (s.l1 i x).sequencer (s.requestTokens i x) (s'.l1 i x).sequencer
      (s'.requestTokens i x) := by
  have hsame : ∀ s', SameContent s s' →
      RequestMove (s.l1 i x).sequencer (s.requestTokens i x) (s'.l1 i x).sequencer
        (s'.requestTokens i x) := fun s' hs' =>
    requestMove_of_eq (by rw [hs'.l1]) (by rw [hs'.mandatory])
  cases hs with
  | idle | delayForward | delayResponse | requestIn | dmaRequestIn | memoryIn | makeDMARequest
  | dmaMandatoryIn | dmaResponseIn | serveRead | serveWrite => exact requestMove_of_eq rfl rfl
  | @makeRequest j y pkt seq hx hseq =>
    set m : RubyRequest := ⟨j, y, pkt.kind.secondaryType⟩
    rcases em (i = j ∧ x = y) with ⟨rfl, rfl⟩ | hne
    · have htoken : queuedRequest i x m = some (.queued pkt.kind.secondaryType) := if_pos ⟨rfl, rfl⟩
      have htokens : (s.mandatory.send [m]).content.filterMap (queuedRequest i x) +
          (s.l1 i x).getState.tokens =
            .queued pkt.kind.secondaryType ::ₘ s.requestTokens i x := by
        rw [filterMap_content_send, List.filterMap_cons_some htoken, List.filterMap_nil,
          coe_singleton, add_right_comm, add_comm, singleton_add]
        rfl
      have hmove := Ruby.requestMove_make hseq (s.requestTokens i x)
      rw [← htokens] at hmove
      show RequestMove _ _ ((s.setL1 i x _).l1 i x).sequencer
        (_ + ((s.setL1 i x _).l1 i x).getState.tokens)
      rw [setL1_self]
      exact hmove
    · refine requestMove_of_eq (setL1_of_ne hne) ?_
      have htoken : queuedRequest i x m = none := if_neg fun h => hne ⟨h.1.symm, h.2.symm⟩
      show (s.mandatory.send [m]).content.filterMap _ = _
      rw [filterMap_content_send, List.filterMap_cons_none htoken]
      exact add_zero _
  | forwardIn hm hb hev hw =>
    refine requestMove_applyL1 hw fun h => ?_
    have hfwd := L1Cache.isForward_of_forwardEvent hev
    rcases h with rfl | rfl | rfl <;> cases hfwd
  | responseIn hm hb hw | replacement hm he hav hv hw => exact requestMove_applyL1 hw (by simp)
  | mandatoryIn hm hev hw => exact requestMove_mandatoryIn hm hev hw
  | deliver v n => exact hsame _ (sameContent_deliver v n)
  | requeue v n => exact hsame _ (sameContent_requeue v n)

theorem run_requestsOk {memory : Nat → DataBlock B} {ls : List (Label B)}
    (hs : (init memory).run P ls = .ok s) (i x : Nat) :
    RequestsOk (s.l1 i x).sequencer (s.requestTokens i x) := by
  refine (run_induction (P := P)
    (p := fun _ s => RequestsOk (s.l1 i x).sequencer (s.requestTokens i x)) ?_ ?_ hs).2
  · exact .free ⟨rfl, rfl⟩ rfl
  · intro ls s l s' _ hinv ih hto _
    exact (hto.requestMove i x).ok ih

end System

end NocSwap.MIExample
