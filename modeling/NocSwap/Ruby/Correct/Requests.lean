import Mathlib.Algebra.Order.Group.Multiset
import NocSwap.Ruby.Correct.Sequencer

/-!
# The requests of a sequencer
-/

namespace NocSwap.Ruby

open Multiset

variable {B : Nat}

inductive RequestToken
  /-- In the mandatory queue. -/
  | queued (t : RubyRequestType)
  /-- The cache waits for the data, for a load or for a store. -/
  | fetching (store : Bool)

structure HasRequest (seq : SequencerLine B) (pkt : Packet B) : Prop where
  read : seq.readRequest = if pkt.kind.primaryType.isWriteRequest = true then none else some pkt
  write : seq.writeRequest = if pkt.kind.primaryType.isWriteRequest = true then some pkt else none

structure NoRequest (seq : SequencerLine B) : Prop where
  read : seq.readRequest = none
  write : seq.writeRequest = none

inductive RequestsOk (seq : SequencerLine B) (ts : Multiset RequestToken) : Prop
  | free (hseq : NoRequest seq) (h : ts = 0)
  | busy {pkt : Packet B} {t : RequestToken} (hseq : HasRequest seq pkt) (h : ts = {t})
      (ht : t = .queued pkt.kind.secondaryType ∨ t = .fetching pkt.kind.primaryType.isWriteRequest)

inductive RequestMove (seq : SequencerLine B) (ts : Multiset RequestToken) (seq' : SequencerLine B)
    (ts' : Multiset RequestToken) : Prop
  | idle (hr : seq'.readRequest = seq.readRequest) (hw : seq'.writeRequest = seq.writeRequest)
      (h : ts' = ts)
  | make {pkt : Packet B} (hseq : NoRequest seq) (hseq' : HasRequest seq' pkt)
      (h : ts' = .queued pkt.kind.secondaryType ::ₘ ts)
  | fetch {t : RubyRequestType} {r : Multiset RequestToken}
      (hr : seq'.readRequest = seq.readRequest) (hw : seq'.writeRequest = seq.writeRequest)
      (h : ts = .queued t ::ₘ r) (h' : ts' = .fetching (!t.isReadCallback) ::ₘ r)
  | load {t : RequestToken} (hr : seq.readRequest ≠ none) (hr' : seq'.readRequest = none)
      (hw : seq'.writeRequest = seq.writeRequest) (h : ts = t ::ₘ ts')
  | store {t : RequestToken} (hw : seq.writeRequest ≠ none) (hw' : seq'.writeRequest = none)
      (hr : seq'.readRequest = seq.readRequest) (h : ts = t ::ₘ ts')

theorem isWriteRequest_eq (k : PacketKind) :
    k.primaryType.isWriteRequest = !k.secondaryType.isReadCallback := by
  cases k <;> rfl

variable {seq : SequencerLine B} {t : RequestToken} {ts : Multiset RequestToken}

theorem RequestsOk.of_cons (h : RequestsOk seq (t ::ₘ ts)) : ts = 0 ∧ ∃ pkt, HasRequest seq pkt ∧
      (t = .queued pkt.kind.secondaryType ∨ t = .fetching pkt.kind.primaryType.isWriteRequest) := by
  cases h with
  | free _ h => cases cons_ne_zero h
  | busy hseq h ht =>
    obtain ⟨rfl, rfl⟩ : _ ∧ ts = 0 := by simpa using cons_eq_cons.mp h
    exact ⟨rfl, _, hseq, ht⟩

theorem RequestMove.ok {seq' : SequencerLine B} {ts' : Multiset RequestToken}
    (h : RequestsOk seq ts) (hmove : RequestMove seq ts seq' ts') : RequestsOk seq' ts' := by
  cases hmove with
  | idle hr hw hts =>
    subst hts
    cases h with
    | free hseq h => exact .free ⟨hr.trans hseq.read, hw.trans hseq.write⟩ h
    | busy hseq h ht => exact .busy ⟨hr.trans hseq.read, hw.trans hseq.write⟩ h ht
  | @make pkt hseq hseq' hts =>
    subst hts
    cases h with
    | free _ h => exact .busy hseq' (by rw [h]; rfl) (.inl rfl)
    | @busy p t hp =>
      have hread := hp.read.symm.trans hseq.read
      have hwrite := hp.write.symm.trans hseq.write
      split at hread
      case isTrue hk => simp [hk] at hwrite
      case isFalse => cases hread
  | @fetch t r hr hw hts hts' =>
    subst hts hts'
    obtain ⟨rfl, pkt, hseq, ht⟩ := h.of_cons
    have htype : t = pkt.kind.secondaryType := by simpa using ht
    refine .busy ⟨hr.trans hseq.read, hw.trans hseq.write⟩ rfl (.inr ?_)
    rw [isWriteRequest_eq, htype]
  | @load t hr hr' hw hts =>
    subst hts
    obtain ⟨rfl, pkt, hseq, -⟩ := h.of_cons
    refine .free ⟨hr', ?_⟩ rfl
    rw [hw, hseq.write]
    rw [hseq.read] at hr
    split at hr
    case isTrue => exact absurd rfl hr
    case isFalse hk => exact if_neg hk
  | @store t hw hw' hr hts =>
    subst hts
    obtain ⟨rfl, pkt, hseq, -⟩ := h.of_cons
    refine .free ⟨?_, hw'⟩ rfl
    rw [hr, hseq.read]
    rw [hseq.write] at hw
    split at hw
    case isTrue hk => exact if_pos hk
    case isFalse => exact absurd rfl hw

theorem requestMove_make {seq' : SequencerLine B} {pkt : Packet B}
    (h : seq.insertRequest pkt = (.Ready, seq')) (ts : Multiset RequestToken) :
    RequestMove seq ts seq' (.queued pkt.kind.secondaryType ::ₘ ts) := by
  obtain ⟨hr, hw, -, hseq⟩ := SequencerLine.of_insertRequest_ready h
  refine .make ⟨hr, hw⟩ ?_ rfl
  subst hseq
  split
  case isTrue hk => exact ⟨hr.trans (if_pos hk).symm, (if_pos hk).symm⟩
  case isFalse hk => exact ⟨(if_neg hk).symm, hw.trans (if_neg hk).symm⟩

theorem isReadCallback_of_not_isWriteRequest {k : PacketKind}
    (h : ¬ k.primaryType.isWriteRequest = true) : k.primaryType.isReadCallback = true := by
  cases k <;> first | rfl | exact absurd rfl h

theorem isWriteCallback_of_isWriteRequest {k : PacketKind}
    (h : k.primaryType.isWriteRequest = true) : k.primaryType.isWriteCallback = true := by
  cases k <;> first | rfl | exact absurd h Bool.false_ne_true

section

variable (h : RequestsOk seq ts) (hmem : t ∈ ts)
include h hmem

theorem RequestsOk.isWriteRequest {w : Bool}
    (ht : t = .fetching w ∨ ∃ r, t = .queued r ∧ r.isReadCallback = !w) :
    ∃ pkt, HasRequest seq pkt ∧ pkt.kind.primaryType.isWriteRequest = w := by
  obtain ⟨ts, rfl⟩ := exists_cons_of_mem hmem
  obtain ⟨-, pkt, hseq, htok⟩ := h.of_cons
  refine ⟨pkt, hseq, ?_⟩
  rcases ht with rfl | ⟨r, rfl, hr⟩
  · have hw : w = pkt.kind.primaryType.isWriteRequest := by simpa using htok
    exact hw.symm
  · have htype : r = pkt.kind.secondaryType := by simpa using htok
    rw [isWriteRequest_eq, ← htype, hr, Bool.not_not]

theorem RequestsOk.load (ht : t = .fetching false ∨ ∃ r, t = .queued r ∧ r.isReadCallback = true) :
    ∃ pkt, seq.readRequest = some pkt ∧ pkt.kind.primaryType.isReadCallback = true := by
  obtain ⟨pkt, hseq, hw⟩ := h.isWriteRequest hmem ht
  have hk := (Bool.not_eq_true _).mpr hw
  exact ⟨pkt, hseq.read.trans (if_neg hk), isReadCallback_of_not_isWriteRequest hk⟩

theorem RequestsOk.store (ht : t = .fetching true ∨ ∃ r, t = .queued r ∧ r.isReadCallback = false) :
    ∃ pkt, seq.writeRequest = some pkt ∧ pkt.kind.primaryType.isWriteCallback = true := by
  obtain ⟨pkt, hseq, hk⟩ := h.isWriteRequest hmem ht
  exact ⟨pkt, hseq.write.trans (if_pos hk), isWriteCallback_of_isWriteRequest hk⟩

end

theorem RequestsOk.secondaryType {r : RubyRequestType} (h : RequestsOk seq ts)
    (hmem : .queued r ∈ ts) : ∃ k : PacketKind, r = k.secondaryType := by
  obtain ⟨ts, rfl⟩ := exists_cons_of_mem hmem
  obtain ⟨-, pkt, -, htok⟩ := h.of_cons
  exact ⟨pkt.kind, by simpa using htok⟩

end NocSwap.Ruby
