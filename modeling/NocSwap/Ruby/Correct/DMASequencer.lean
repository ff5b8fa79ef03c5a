import Mathlib.Data.List.Perm.Basic
import NocSwap.Ruby.DMASequencer

/-!
# Requests of a DMA sequencer

`m_RequestTable` has one entry for each message that waits for its answer, under the line of the
message, as long as each request lies in one line. Each answer then completes one request.
-/

namespace NocSwap.Ruby.DMASequencer

open List

variable {B address : Nat} {s : DMASequencer} {r : DMARequest} {pkt : Packet} {p : Port}
  {m : SequencerMsg} {dblk : List UInt8}

/-! ### Answers -/

theorem issueNext_complete (hr : s.requestTable address = some r)
    (hout : s.outstandingCount ≤ s.maxOutstandingRequests) (hlen : r.len = r.bytesIssued) :
    issueNext B s address = .ok { s with
      requestTable := Function.update s.requestTable address none
      outstandingCount := s.outstandingCount - 1
      hits := s.hits ++ [{ r with bytesCompleted := r.bytesIssued }] } := by
  unfold issueNext
  rw [hr, require, if_pos hout]
  exact if_pos hlen

theorem dataCallback_eq (hr : s.requestTable address = some r)
    (hw : r.write = false) (hc : r.bytesCompleted = 0) :
    dataCallback B s dblk address = issueNext B { s with
      requestTable := Function.update s.requestTable address (some { r with
        data := (dblk.drop (r.startPaddr % B)).take r.bytesIssued ++ r.data.drop r.bytesIssued }) }
      address := by
  unfold dataCallback
  rw [hr]
  show (require _ _ >>= _) = _
  rw [require, if_pos hw, hc]
  simp only [if_true, Nat.sub_zero, Nat.zero_add, List.take_zero, List.nil_append]
  rfl

/-- The message of a request that lies in one line. -/
def piece (B : Nat) (pkt : Packet) : SequencerMsg :=
  ⟨pkt.addr, makeLineAddress B pkt.addr, pkt.write, pkt.data.length, pkt.data⟩

/-- The entry of the request table for a message that is the whole request. -/
def entry (m : SequencerMsg) : DMARequest := ⟨m.physicalAddress, m.len, m.write, 0, m.len, m.data⟩

/-- The request that is given back when the message is answered with the block `dblk`. -/
def completed (B : Nat) (m : SequencerMsg) (dblk : List UInt8) : DMARequest :=
  ⟨m.physicalAddress, m.len, m.write, m.len, m.len,
    if m.write then m.data else (dblk.drop (m.physicalAddress % B)).take m.len⟩

/-- The answer to a message that is a whole request completes the request. -/
theorem answer_eq (hr : s.requestTable m.lineAddress = some (entry m))
    (hout : s.outstandingCount ≤ s.maxOutstandingRequests) (hlen : m.data.length = m.len) :
    answer B (fun _ => dblk) s m = .ok { s with
      requestTable := Function.update s.requestTable m.lineAddress none
      outstandingCount := s.outstandingCount - 1
      hits := s.hits ++ [completed B m dblk] } := by
  unfold answer
  cases hw : m.write with
  | true =>
    show ackCallback B s m.lineAddress = _
    rw [ackCallback, require, if_pos (by rw [hr]; rfl)]
    refine (issueNext_complete hr hout rfl).trans ?_
    simp [entry, completed, hw]
  | false =>
    show dataCallback B s dblk m.lineAddress = _
    let r : DMARequest := { entry m with
      data := (dblk.drop (m.physicalAddress % B)).take m.len ++ m.data.drop m.len }
    let t : DMASequencer := { s with
      requestTable := Function.update s.requestTable m.lineAddress (some r) }
    have hdone := issueNext_complete (B := B) (s := t)
      (show t.requestTable m.lineAddress = some r from Function.update_self ..) hout rfl
    rw [dataCallback_eq hr hw rfl]
    refine hdone.trans ?_
    simp [t, r, entry, completed, hw, ← hlen]

/-! ### Runs of the port -/

/-- The packet is not empty and lies in one line, as `RubyPort` asserts. -/
def Packet.InLine (B : Nat) (pkt : Packet) : Prop :=
  pkt.data ≠ [] ∧ pkt.addr % B + pkt.data.length ≤ B

structure Port.Ok (B : Nat) (p : Port) : Prop where
  /-- Each accepted packet has been issued as one message. -/
  issued : p.seq.issued = p.accepted.map (piece B)
  inLine : ∀ pkt ∈ p.accepted, pkt.InLine B
  /-- Each message has been answered or waits. -/
  answered : (p.answers.map Prod.fst ++ p.waiting).Perm p.seq.issued
  /-- Each answer has given back its request. -/
  hits : p.seq.hits = p.answers.map fun a => completed B a.1 a.2
  lines : (p.waiting.map SequencerMsg.lineAddress).Nodup
  /-- The table has the requests of the waiting messages, under their lines. -/
  entries : ∀ m ∈ p.waiting, p.seq.requestTable m.lineAddress = some (entry m)
  free : ∀ line, (∀ m ∈ p.waiting, m.lineAddress ≠ line) → p.seq.requestTable line = none
  count : p.seq.outstandingCount = p.waiting.length
  bounded : p.seq.outstandingCount ≤ p.seq.maxOutstandingRequests

theorem Port.Ok.length_eq (h : p.Ok B) (hm : m ∈ p.waiting) : m.data.length = m.len := by
  have hmem := h.answered.subset (mem_append_right _ hm)
  rw [h.issued] at hmem
  obtain ⟨pkt, -, rfl⟩ := mem_map.mp hmem
  rfl

theorem makeRequest_cases (hpkt : pkt.InLine B) : makeRequest B s pkt = (false, s) ∨
      s.outstandingCount ≠ s.maxOutstandingRequests ∧
      s.requestTable (makeLineAddress B pkt.addr) = none ∧
      makeRequest B s pkt = (true, { s with
        requestTable := Function.update s.requestTable (makeLineAddress B pkt.addr)
          (some (entry (piece B pkt)))
        outstandingCount := s.outstandingCount + 1
        issued := s.issued ++ [piece B pkt] }) := by
  unfold makeRequest
  split
  · exact .inl rfl
  case isFalse hfull =>
    cases ht : s.requestTable (makeLineAddress B pkt.addr) with
    | some r => exact .inl (by simp only [ht])
    | none =>
      refine .inr ⟨hfull, rfl, ?_⟩
      simp only [ht, if_pos hpkt.2, take_length]
      rfl

/-- A request: it is turned away, or issued as one message. -/
theorem Port.Ok.request (h : p.Ok B) (hpkt : pkt.InLine B) :
    ∃ p', p.step B (.request pkt) = .ok p' ∧ p'.Ok B := by
  unfold Port.step
  rcases makeRequest_cases (s := p.seq) hpkt with hno | ⟨hfull, ht, hyes⟩
  · refine ⟨p, ?_, h⟩
    simp [hno]
  · simp only [hyes, drop_left, if_true]
    have hfresh : ∀ m ∈ p.waiting, m.lineAddress ≠ makeLineAddress B pkt.addr := by
      intro m hm heq
      cases ht.symm.trans (heq ▸ h.entries m hm)
    refine ⟨_, rfl, ?_, ?_, ?_, h.hits, ?_, ?_, ?_, ?_, ?_⟩
    · show p.seq.issued ++ [piece B pkt] = _
      rw [h.issued, map_append]
      rfl
    · intro q hq
      rcases mem_append.mp hq with hq | hq
      · exact h.inLine q hq
      · rwa [mem_singleton.mp hq]
    · show (_ ++ (p.waiting ++ [piece B pkt])).Perm (p.seq.issued ++ [piece B pkt])
      rw [← append_assoc]
      exact h.answered.append_right _
    · show (map _ (p.waiting ++ [piece B pkt])).Nodup
      rw [map_append, nodup_append]
      refine ⟨h.lines, by simp, fun line hline line' hline' => ?_⟩
      obtain ⟨m, hm, rfl⟩ := mem_map.mp hline
      rw [mem_singleton.mp hline']
      exact hfresh m hm
    · intro m hm
      show Function.update _ _ _ m.lineAddress = _
      rcases mem_append.mp hm with hm | hm
      · rw [Function.update_of_ne (hfresh m hm), h.entries m hm]
      · rw [mem_singleton.mp hm]
        exact Function.update_self ..
    · intro line hline
      have hne : line ≠ makeLineAddress B pkt.addr := fun heq =>
        hline (piece B pkt) (mem_append_right _ (mem_singleton_self _)) heq.symm
      show Function.update _ _ _ line = _
      rw [Function.update_of_ne hne]
      exact h.free line fun m hm => hline m (mem_append_left _ hm)
    · show p.seq.outstandingCount + 1 = (p.waiting ++ _).length
      rw [h.count, length_append]
      rfl
    · have hle := h.bounded
      show p.seq.outstandingCount + 1 ≤ p.seq.maxOutstandingRequests
      omega

/-- An answer completes the request of its message. -/
theorem Port.Ok.answer (h : p.Ok B) (n : Nat) (dblk : List UInt8) :
    ∃ p', p.step B (.answer n dblk) = .ok p' ∧ p'.Ok B := by
  unfold Port.step
  cases hn : p.waiting[n]? with
  | none => exact ⟨p, by simp only [hn], h⟩
  | some m =>
    have hm := mem_of_getElem? hn
    obtain ⟨hlt, hget⟩ := List.getElem?_eq_some_iff.mp hn
    have hperm : (m :: p.waiting.eraseIdx n).Perm p.waiting := by
      rw [← hget]
      exact getElem_cons_eraseIdx_perm hlt
    have hlines := (hperm.map SequencerMsg.lineAddress).nodup_iff.mpr h.lines
    rw [map_cons, nodup_cons] at hlines
    have hne : ∀ m' ∈ p.waiting.eraseIdx n, m'.lineAddress ≠ m.lineAddress := fun m' hm' heq =>
      hlines.1 (mem_map.mpr ⟨m', hm', heq⟩)
    simp only [hn, answer_eq (h.entries m hm) h.bounded (h.length_eq hm)]
    refine ⟨_, rfl, h.issued, h.inLine, ?_, ?_, ?_, ?_, ?_, ?_, ?_⟩
    all_goals simp only [drop_length, append_nil]
    · rw [map_append, append_assoc]
      exact (hperm.append_left _).trans h.answered
    · rw [map_append, h.hits]
      rfl
    · exact hlines.2
    · intro m' hm'
      rw [Function.update_of_ne (hne m' hm')]
      exact h.entries m' (mem_of_mem_eraseIdx hm')
    · intro line hline
      by_cases heq : line = m.lineAddress
      · rw [heq, Function.update_self]
      · rw [Function.update_of_ne heq]
        refine h.free line fun m' hm' => ?_
        rcases mem_cons.mp (hperm.mem_iff.mpr hm') with rfl | hm'
        · exact fun h => heq h.symm
        · exact hline m' hm'
    · have hlen := hperm.length_eq
      rw [length_cons] at hlen
      rw [h.count]
      omega
    · have hle := h.bounded
      omega

end NocSwap.Ruby.DMASequencer
