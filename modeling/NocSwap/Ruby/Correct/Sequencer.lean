import NocSwap.Ruby.Sequencer

/-!
# The sequencer: requests and callbacks
-/

namespace NocSwap.Ruby.SequencerLine

variable {B : Nat}

theorem hitCallback_of_isReadCallback {pkt : Packet B} {b : Bool} (data : DataBlock B)
    (h : pkt.kind.primaryType.isReadCallback = true) : hitCallback pkt b data = data := by
  unfold hitCallback
  cases hk : pkt.kind with
  | read | instFetch => rfl
  | _ =>
    rw [hk] at h
    exact absurd h Bool.false_ne_true

theorem isStore_of_isReadCallback {cb : Callback B}
    (h : cb.pkt.kind.primaryType.isReadCallback = true) : cb.isStore = false := by
  unfold Callback.isStore
  cases hk : cb.pkt.kind with
  | write | swap | lockedRMWWrite | storeCond =>
    rw [hk] at h
    exact absurd h Bool.false_ne_true
  | _ => rfl

theorem hitCallback_eq_self {cb : Callback B} (h : cb.isStore = false) :
    hitCallback cb.pkt cb.success cb.before = cb.before := by
  unfold Callback.isStore at h
  unfold hitCallback
  cases hk : cb.pkt.kind with
  | write | swap | lockedRMWWrite =>
    rw [hk] at h
    exact absurd h.symm Bool.false_ne_true
  | storeCond =>
    rw [hk] at h
    simp [PacketKind.primaryType, RubyRequestType.isRead, h]
  | _ => rfl

theorem primaryType_eq_Load_Linked {kind : PacketKind} :
    kind.primaryType = .Load_Linked ↔ kind = .loadLocked := by
  cases kind <;> simp [PacketKind.primaryType]

theorem of_handleLlsc_locked {version k : Nat} {type : RubyRequestType} {locked : Option Nat}
    (hown : ∀ j, locked = some j → j = version)
    (h : (handleLlsc version type (some locked)).2.getD locked = some k) :
    type = .Load_Linked ∧ k = version := by
  unfold handleLlsc at h
  simp only at h
  split at h
  case isTrue => simp at h
  case isFalse =>
    split at h
    case isTrue ht =>
      simp only [Option.getD_some, Option.some.injEq] at h
      exact ⟨ht, h.symm⟩
    case isFalse =>
      split at h
      case isTrue => simp at h
      case isFalse hne =>
        simp only [Option.getD_some] at h
        exact absurd (hown k h ▸ h) hne

theorem locked_of_handleLlsc {version : Nat} {locked : Option Nat}
    (h : (handleLlsc version .Store_Conditional (some locked)).1 = true) : locked = some version := by
  simpa [handleLlsc] using h

theorem of_insertRequest_ready {seq seq' : SequencerLine B} {pkt : Packet B}
    (h : seq.insertRequest pkt = (.Ready, seq')) :
    seq.readRequest = none ∧ seq.writeRequest = none ∧
      (seq.blocked = true → pkt.kind.primaryType = .Locked_RMW_Write) ∧
      seq' = if pkt.kind.primaryType.isWriteRequest = true then { seq with writeRequest := some pkt }
        else { seq with readRequest := some pkt } := by
  obtain ⟨rd, wr, bl⟩ := seq
  unfold insertRequest at h
  simp only at h
  split at h
  case isTrue => simp at h
  case isFalse hb =>
    have hlock : bl = true → pkt.kind.primaryType = .Locked_RMW_Write := fun hbl => by
      by_contra hne
      exact hb ⟨hbl, hne⟩
    split at h
    case isTrue ht =>
      cases rd <;> cases wr <;> simp at h
      exact ⟨rfl, rfl, hlock, by rw [if_pos ht]; exact h.symm⟩
    case isFalse ht =>
      cases rd <;> cases wr <;> simp at h
      exact ⟨rfl, rfl, hlock, by rw [if_neg ht]; exact h.symm⟩

end NocSwap.Ruby.SequencerLine
