import NocSwap.Garnet.Correct.Flits
import NocSwap.Garnet.Correct.Frame

/-!
# Ejection
-/

namespace NocSwap

open Function List

variable {P : Params} {s s' : Net} {n : Nat}

/-! ### Counters and callbacks -/

def stalledCount (s : Net) (n vnet : Nat) : Nat :=
  (s.buf (.stallQueue n)).countP fun f => f.vnet = vnet

/-- Interface `n` counts its stalled flits and has a callback where there are some. -/
structure StallOk (s : Net) (n : Nat) : Prop where
  count : ∀ v, (s.ni n).stallCount v = stalledCount s n v
  callback : ∀ v, ((s.ni n).outNode v).dequeueCallback = true ↔ 0 < stalledCount s n v
  pop : ∀ v, ((s.ni n).outNode v).timeLastTimePop ≤ s.now

namespace StallOk

theorem keep (h : StallOk s n) (hnow : s'.now = s.now)
    (hq : s'.buf (.stallQueue n) = s.buf (.stallQueue n))
    (hcount : (s'.ni n).stallCount = (s.ni n).stallCount)
    (hout : ∀ v, ((s.ni n).outNode v).Keeps s.now ((s'.ni n).outNode v)) : StallOk s' n where
  count v := by
    rw [hcount, stalledCount, hq]
    exact h.count v
  callback v := by
    rw [(hout v).callback, stalledCount, hq]
    exact h.callback v
  pop v := hnow ▸ (hout v).pop (h.pop v)

theorem stall (h : StallOk s n) (f : Flit) {g : Flit} (hvnet : g.vnet = f.vnet) (hnow : s'.now = s.now)
    (hq : s'.buf (.stallQueue n) = s.buf (.stallQueue n) ++ [g])
    (hcount : (s'.ni n).stallCount =
      update (s.ni n).stallCount f.vnet ((s.ni n).stallCount f.vnet + 1))
    (hout : (s'.ni n).outNode = update (s.ni n).outNode f.vnet
      ((s.ni n).outNode f.vnet).registerDequeueCallback) : StallOk s' n := by
  have hlen : ∀ v, stalledCount s' n v = stalledCount s n v + if f.vnet = v then 1 else 0 := by
    intro v
    unfold stalledCount
    rw [hq, countP_append, countP_singleton, hvnet]
    simp
  refine ⟨fun v => ?_, fun v => ?_, fun v => ?_⟩
  all_goals rcases eq_or_ne v f.vnet with rfl | hne
  · rw [hcount, hlen, update_self, h.count, if_pos rfl]
    push_cast
    rfl
  · rw [hcount, hlen, update_of_ne hne, h.count, if_neg hne.symm, Nat.add_zero]
  · rw [hout, hlen, update_self, if_pos rfl]
    exact ⟨fun _ => Nat.succ_pos _, fun _ => rfl⟩
  · rw [hout, hlen, update_of_ne hne, if_neg hne.symm, Nat.add_zero]
    exact h.callback v
  · rw [hout, hnow, update_self]
    exact h.pop _
  · rw [hout, hnow, update_of_ne hne]
    exact h.pop v

theorem unstall (h : StallOk s n) {f : Flit} {fs gs : List Flit} (hnow : s'.now = s.now)
    (hb : s.buf (.stallQueue n) = fs ++ f :: gs) (hq : s'.buf (.stallQueue n) = fs ++ gs)
    (hcount : (s'.ni n).stallCount =
      update (s.ni n).stallCount f.vnet ((s.ni n).stallCount f.vnet - 1))
    (hout : (s'.ni n).outNode = if (s.ni n).stallCount f.vnet - 1 = 0 then
        update (s.ni n).outNode f.vnet
          ((s.ni n).outNode f.vnet).unregisterDequeueCallback
      else (s.ni n).outNode) : StallOk s' n := by
  have hlen : ∀ v, stalledCount s n v = stalledCount s' n v + if f.vnet = v then 1 else 0 := by
    intro v
    unfold stalledCount
    rw [hq, hb, countP_append, countP_cons, countP_append]
    simp only [decide_eq_true_eq]
    omega
  have hself : (s.ni n).stallCount f.vnet - 1 = stalledCount s' n f.vnet := by
    rw [h.count, hlen, if_pos rfl]
    push_cast
    omega
  rw [hself] at hcount hout
  refine ⟨fun v => ?_, fun v => ?_, fun v => ?_⟩
  all_goals rcases eq_or_ne v f.vnet with rfl | hne
  · rw [hcount, update_self]
  · rw [hcount, update_of_ne hne, h.count, hlen, if_neg hne.symm, Nat.add_zero]
  · have hcb : ((s.ni n).outNode f.vnet).dequeueCallback = true :=
      (h.callback _).mpr (by rw [hlen, if_pos rfl]; exact Nat.succ_pos _)
    rw [hout]
    split_ifs with h0
    · have hzero : stalledCount s' n f.vnet = 0 := by exact_mod_cast h0
      rw [update_self, hzero]
      exact ⟨fun h => (nomatch h), fun h => (nomatch h)⟩
    · have hpos : 0 < stalledCount s' n f.vnet := Nat.pos_of_ne_zero fun e => h0 (by rw [e]; rfl)
      exact ⟨fun _ => hpos, fun _ => hcb⟩
  · have hcb := h.callback v
    rw [hlen, if_neg hne.symm, Nat.add_zero] at hcb
    rw [hout]
    split_ifs
    · rw [update_of_ne hne]
      exact hcb
    · exact hcb
  · rw [hout, hnow]
    split_ifs
    · rw [update_self]
      exact h.pop _
    · exact h.pop _
  · rw [hout, hnow]
    split_ifs
    · rw [update_of_ne hne]
      exact h.pop v
    · exact h.pop v

end StallOk

theorem stallOk (P : Params) : Inductive P fun s => ∀ n, StallOk s n where
  init _ := ⟨fun _ => rfl, fun _ => ⟨fun h => (nomatch h), fun h => (nomatch h)⟩, fun _ => le_refl 0⟩
  fire _ _ h n := (h n).keep rfl rfl rfl fun _ => .rfl'
  tick _ h n := ⟨(h n).count, (h n).callback, fun v => Nat.le_succ_of_le ((h n).pop v)⟩
  move s c s' _ h hm n := by
    have hset : ∀ {n' : Nat} {x : NiRegs}, s'.ni = update s.ni n' x → s'.now = s.now →
        s'.buf (.stallQueue n) = s.buf (.stallQueue n) → x.stallCount = (s.ni n').stallCount →
        (∀ v, ((s.ni n').outNode v).Keeps s.now (x.outNode v)) → StallOk s' n :=
      fun {n' x} hni hnow hq hcount hout => by
        rcases eq_or_ne n n' with rfl | hne
        · refine (h n).keep hnow hq ?_ fun v => ?_
          · rw [hni, update_self, hcount]
          · rw [hni, update_self]
            exact hout v
        · refine (h n).keep hnow hq ?_ fun v => ?_
          · rw [hni, update_of_ne hne]
          · rw [hni, update_of_ne hne]
            exact .rfl'
    have hother : ∀ {n' : Nat} {x : NiRegs}, s'.ni = update s.ni n' x → n ≠ n' →
        s'.now = s.now → s'.buf (.stallQueue n) = s.buf (.stallQueue n) → StallOk s' n :=
      fun {n' x} hni hne hnow hq => by
        have hsame : s'.ni n = s.ni n := by rw [hni, update_of_ne hne]
        refine (h n).keep hnow hq (by rw [hsame]) fun v => ?_
        rw [hsame]
        exact .rfl'
    cases hm with
    | niRegs n' x hk => exact hset rfl rfl rfl hk.stallCount hk.outNode
    | create | send => exact hset rfl rfl (by simp) rfl fun _ => .rfl'
    | @stall n' f =>
      rcases eq_or_ne n n' with rfl | hne
      · exact (h n).stall f (g := { f with dequeueTime := s.now }) rfl rfl (by simp) (by simp)
          (by simp)
      · exact hother rfl hne rfl (by simp [hne])
    | @unstall n' _ _ _ _ hb =>
      rcases eq_or_ne n n' with rfl | hne
      · exact (h n).unstall rfl hb (by simp) (by simp) (by simp)
      · exact hother rfl hne rfl (by simp [hne])
    | link | arrive | swap | grant | cross | eject =>
      exact (h n).keep rfl (by simp) rfl fun _ => .rfl'
    | _ => exact (h n).keep rfl rfl rfl fun _ => .rfl'

structure EjectFrame (n : Nat) (s s' : Net) : Prop where
  now : s'.now = s.now
  stalled : s'.buf (.stallQueue n) = s.buf (.stallQueue n)
  link : s'.buf (.linkBuffer (.extOut n)) = s.buf (.linkBuffer (.extOut n))
  outNode : (s'.ni n).outNode = (s.ni n).outNode

theorem EjectFrame.rfl' : EjectFrame n s s := ⟨rfl, rfl, rfl, rfl⟩

theorem EjectFrame.trans {t : Net} (h : EjectFrame n s s') (h' : EjectFrame n s' t) :
    EjectFrame n s t :=
  ⟨h'.now.trans h.now, h'.stalled.trans h.stalled, h'.link.trans h.link,
    h'.outNode.trans h.outNode⟩

theorem Quiet.ejectFrame {B : Set Buf} {C : Set CreditBuf} (h : Quiet B C s s')
    (hs : .stallQueue n ∉ B) (hl : .linkBuffer (.extOut n) ∉ B) : EjectFrame n s s' :=
  ⟨h.now, h.buf _ hs, h.buf _ hl, h.outNode n⟩

def arriving (s : Net) (n : Nat) : List Flit :=
  ((s.buf (.linkBuffer (.extOut n))).head?.filter fun f => decide (f.time ≤ s.now) && f.isTail).toList

/-- The flits that interface `n` tries to deliver in a wakeup: the stalled ones and the one that
arrives. -/
def ejectable (s : Net) (n : Nat) : List Flit := s.buf (.stallQueue n) ++ arriving s n

def slotsNext (s : Net) (n vnet k : Nat) : Bool :=
  ((s.ni n).outNode vnet).areNSlotsAvailable k (s.now + 1)

def SlotTaken (n vnet : Nat) (s s' : Net) : Prop :=
  ∀ v k, slotsNext s' n v k = slotsNext s n v (if v = vnet then k + 1 else k)

/-- The first flit that has a slot has been delivered, if any has, and the others are stalled. -/
inductive Ejects (n : Nat) (s s' : Net) : Prop
  | none (hfull : ∀ f ∈ ejectable s n, slotFree s n f.vnet = false)
      (hleft : (s'.buf (.stallQueue n)).map (·.vnet) = (ejectable s n).map (·.vnet))
      (hslots : ∀ v k, slotsNext s' n v k = slotsNext s n v k)
  | first {pre post : List Flit} {f : Flit} (heq : ejectable s n = pre ++ f :: post)
      (hfull : ∀ g ∈ pre, slotFree s n g.vnet = false) (hfree : slotFree s n f.vnet = true)
      (hleft : (s'.buf (.stallQueue n)).map (·.vnet) = (pre ++ post).map (·.vnet))
      (hslots : SlotTaken n f.vnet s s')

theorem slotsNext_setOutNode {vnet : Nat} {b : MessageBuffer}
    (h : ∀ k, b.areNSlotsAvailable k (s.now + 1) =
      ((s.ni n).outNode vnet).areNSlotsAvailable k (s.now + 1)) (v k : Nat) :
    slotsNext (s.setOutNode n vnet b) n v k = slotsNext s n v k := by
  unfold slotsNext
  rcases eq_or_ne v vnet with rfl | hne
  · simpa [Net.setOutNode] using h k
  · simp [Net.setOutNode, hne]

theorem deliver_slots (hpop : ∀ v, ((s.ni n).outNode v).timeLastTimePop ≤ s.now) (f : Flit)
    (rnd : Nat) :
    Outcome (deliver P n f rnd s)
      (fun s' => s'.now = s.now ∧ s'.buf = s.buf ∧ SlotTaken n f.vnet s s') fun _ => True := by
  simp only [deliver, outcome_do]
  refine (MessageBuffer.enqueue_slots _ _ f.msg 1 rnd (hpop f.vnet)).onOk
    fun res h => ⟨rfl, rfl, fun v k => ?_⟩
  unfold slotsNext
  rcases eq_or_ne v f.vnet with rfl | hne
  · rw [if_pos rfl, ← h k]
    simp [Net.setOutNode, Net.insertCredit]
  · rw [if_neg hne]
    simp [Net.setOutNode, Net.insertCredit, hne]

theorem checkStallQueue_first (hpop : ∀ v, ((s.ni n).outNode v).timeLastTimePop ≤ s.now) (rnd : Nat)
    (l : List Flit) : ∀ done, Outcome (checkStallQueue P n rnd done l s)
      (fun res => (res = (false, s) ∧ ∀ f ∈ l, slotFree s n f.vnet = false) ∨
        (res.1 = true ∧ ∃ pre f post, l = pre ++ f :: post ∧
          (∀ g ∈ pre, slotFree s n g.vnet = false) ∧ slotFree s n f.vnet = true ∧
          res.2.buf (.stallQueue n) = done.reverse ++ (pre ++ post) ∧ res.2.now = s.now ∧
          res.2.buf (.linkBuffer (.extOut n)) = s.buf (.linkBuffer (.extOut n)) ∧
          SlotTaken n f.vnet s res.2))
      fun _ => True := by
  induction l with
  | nil => exact fun _ => .inl ⟨rfl, fun _ h => nomatch h⟩
  | cons f rest ih =>
    intro done
    simp only [checkStallQueue, outcome_do, outcome_ite]
    refine fun _ => ⟨fun hfree => ?_, fun hfull => ?_⟩
    · refine (deliver_slots hpop f rnd).imp fun t ht => .inr ⟨[], f, rest, rfl,
        (fun _ h => nomatch h), hfree, ?_⟩
      obtain ⟨hnow, hbuf, hslots⟩ := ht
      have hcount : ∀ x : NiRegs, x.outNode = (t.ni n).outNode → ∀ v k,
          slotsNext ((t.setBuf (.stallQueue n) (done.reverse ++ rest)).setNi n x) n v k =
            slotsNext s n v (if v = f.vnet then k + 1 else k) := fun x hx v k => by
        rw [← hslots v k]
        simp [slotsNext, hx]
      split_ifs
      · refine ⟨by simp [Net.setOutNode], by simpa [Net.setOutNode] using hnow,
          by simp [Net.setOutNode, hbuf], fun v k => ?_⟩
        refine (slotsNext_setOutNode ?_ v k).trans (hcount _ ?_ v k)
        · exact fun _ => rfl
        · rfl
      · exact ⟨by simp, by simpa using hnow, by simp [hbuf], hcount _ rfl⟩
    · have hf : slotFree s n f.vnet = false := Bool.eq_false_of_not_eq_true hfull
      refine (ih (f :: done)).imp fun res hres => ?_
      rcases hres with ⟨hres, hall⟩ | ⟨hres, pre, g, post, hl, hpre, hfree, hq, hrest⟩
      · exact .inl ⟨hres, forall_mem_cons.mpr ⟨hf, hall⟩⟩
      · refine .inr ⟨hres, f :: pre, g, post, by rw [hl]; rfl,
          forall_mem_cons.mpr ⟨hf, hpre⟩, hfree, ?_, hrest⟩
        rw [hq, reverse_cons, append_assoc]
        rfl

inductive Arrives (n : Nat) (enqueued : Bool) (s s' : Net) : Prop
  | stalled (hfull : enqueued = false → ∀ f ∈ arriving s n, slotFree s n f.vnet = false)
      (hleft : (s'.buf (.stallQueue n)).map (·.vnet) = (ejectable s n).map (·.vnet))
      (hslots : ∀ v k, slotsNext s' n v k = slotsNext s n v k)
  | delivered {f : Flit} (he : enqueued = false) (hone : arriving s n = [f])
      (hfree : slotFree s n f.vnet = true)
      (hleft : s'.buf (.stallQueue n) = s.buf (.stallQueue n)) (hslots : SlotTaken n f.vnet s s')

theorem Arrives.of_none {enqueued : Bool} (h : arriving s n = [])
    (hleft : s'.buf (.stallQueue n) = s.buf (.stallQueue n))
    (hslots : ∀ v k, slotsNext s' n v k = slotsNext s n v k) : Arrives n enqueued s s' := by
  refine .stalled (fun _ f hf => ?_) ?_ hslots
  · rw [h] at hf
    cases hf
  · rw [hleft, ejectable, h, append_nil]

theorem Arrives.ejects_of_full (h : Arrives n false s s')
    (hfull : ∀ f ∈ s.buf (.stallQueue n), slotFree s n f.vnet = false) : Ejects n s s' := by
  cases h with
  | stalled hfull' hleft hslots =>
    refine .none (fun f hf => ?_) hleft hslots
    exact (mem_append.mp hf).elim (hfull f) (hfull' rfl f)
  | @delivered f _ hone hfree hleft hslots =>
    have heq : ejectable s n = s.buf (.stallQueue n) ++ f :: [] := by rw [ejectable, hone]
    exact .first heq hfull hfree (by rw [hleft, append_nil]) hslots

theorem Arrives.ejects_of_first {t : Net} {pre post : List Flit} {f : Flit}
    (h : Arrives n true t s') (hq : s.buf (.stallQueue n) = pre ++ f :: post)
    (hfull : ∀ g ∈ pre, slotFree s n g.vnet = false) (hfree : slotFree s n f.vnet = true)
    (hq' : t.buf (.stallQueue n) = pre ++ post) (hnow : t.now = s.now)
    (hlink : t.buf (.linkBuffer (.extOut n)) = s.buf (.linkBuffer (.extOut n)))
    (hslots : SlotTaken n f.vnet s t) : Ejects n s s' := by
  have harr : arriving t n = arriving s n := by
    unfold arriving
    rw [hlink, hnow]
  cases h with
  | stalled _ hleft hsame =>
    have heq : ejectable s n = pre ++ f :: (post ++ arriving s n) := by
      rw [ejectable, hq, append_assoc, cons_append]
    refine .first heq hfull hfree ?_ fun v k => ?_
    · rw [hleft, ejectable, hq', harr, append_assoc]
    · rw [hsame, hslots]
  | delivered he => cases he

theorem niArrival_arrives (rnd : Nat) (enqueued : Bool)
    (hpop : enqueued = false → ∀ v, ((s.ni n).outNode v).timeLastTimePop ≤ s.now) :
    Outcome (niArrival P n rnd enqueued s) (Arrives n enqueued s) fun _ => True := by
  unfold niArrival
  cases hb : s.buf (.linkBuffer (.extOut n)) with
  | nil => exact Arrives.of_none (by simp [arriving, hb]) rfl fun _ _ => rfl
  | cons f fs =>
    by_cases ht : f.time ≤ s.now
    case neg =>
      simp only [ht, if_false]
      exact Arrives.of_none (by simp [arriving, hb, ht]) rfl fun _ _ => rfl
    simp only [ht, if_true, ejectFlit, outcome_ite, outcome_do]
    have hone : f.isTail = true → arriving s n = [f] := fun htail => by
      simp [arriving, hb, ht, htail]
    refine ⟨fun htail => fun _ => ⟨fun hfree => ?_, fun hfull => ?_⟩,
      fun htail => ?_⟩
    · obtain ⟨he, hfree⟩ := Bool.and_eq_true_iff.mp hfree
      have he' : enqueued = false := by simpa using he
      refine (deliver_slots (s := s.setBuf _ fs) (hpop he') _ rnd).imp fun s' hs' => ?_
      obtain ⟨-, hbuf, hslots⟩ := hs'
      exact .delivered he' (hone htail) hfree (by rw [hbuf]; simp) hslots
    · refine .stalled (fun he => ?_) ?_ fun v k => ?_
      · rw [hone htail, forall_mem_singleton]
        rw [he, Bool.not_false, Bool.true_and] at hfull
        exact Bool.eq_false_of_not_eq_true hfull
      · rw [ejectable, hone htail]
        simp [Net.setOutNode]
      · refine (slotsNext_setOutNode ?_ v k).trans ?_
        · exact fun _ => rfl
        · simp [slotsNext]
    · have hnone : arriving s n = [] := by
        have : f.isTail = false := Bool.eq_false_of_not_eq_true htail
        simp [arriving, hb, this]
      exact Arrives.of_none hnone (by simp [Net.insertCredit]) fun _ _ => rfl

theorem Ejects.congr {t t' : Net} (hs : EjectFrame n s t) (h : Ejects n t t')
    (ht : EjectFrame n t' s') : Ejects n s s' := by
  have heq : ejectable t n = ejectable s n := by
    unfold ejectable arriving
    rw [hs.stalled, hs.link, hs.now]
  have hfree : ∀ v, slotFree t n v = slotFree s n v := fun v => by
    unfold slotFree
    rw [hs.outNode, hs.now]
  have hnext : ∀ v k, slotsNext t n v k = slotsNext s n v k := fun v k => by
    unfold slotsNext
    rw [hs.outNode, hs.now]
  have hnext' : ∀ v k, slotsNext s' n v k = slotsNext t' n v k := fun v k => by
    unfold slotsNext
    rw [ht.outNode, ht.now]
  cases h with
  | none hfull hleft hslots =>
    refine .none (fun f hf => ?_) ?_ fun v k => ?_
    · rw [← hfree]
      exact hfull f (heq ▸ hf)
    · rw [ht.stalled, hleft, heq]
    · rw [hnext', hslots, hnext]
  | first heq' hfull hf hleft hslots =>
    refine .first (heq ▸ heq') (fun g hg => ?_) ?_ ?_ fun v k => ?_
    · rw [← hfree]
      exact hfull g hg
    · rw [← hfree]
      exact hf
    · rw [ht.stalled, hleft]
    · rw [hnext', hslots, hnext]

/-- **The ejection of a wakeup**: the first flit that has a slot is delivered, and the others are
stalled. -/
theorem niWakeup_ejects (rnd : Nat → Nat)
    (hpop : ∀ v, ((s.ni n).outNode v).timeLastTimePop ≤ s.now) :
    Outcome (niWakeup P n rnd s) (Ejects n s) fun _ => True := by
  simp only [niWakeup, outcome_do]
  refine (injectVnets_quiet s).imp fun s₁ h₁ => ?_
  refine (scheduleOutputLink_quiet s₁).imp fun s₂ h₂ => ?_
  have hsent := (h₁.mono Set.subset_union_left (subset_refl _)).trans
    (h₂.1.trans (checkReschedule_quiet s₂ (P := P) (n := n)))
  have hpre : EjectFrame n s (checkReschedule P n s₂) :=
    hsent.ejectFrame (by simp [niOutVcs]) (by simp [niOutVcs])
  generalize checkReschedule P n s₂ = t at hpre
  have hpop' : ∀ v, ((t.ni n).outNode v).timeLastTimePop ≤ t.now := by
    rw [hpre.outNode, hpre.now]
    exact hpop
  refine (checkStallQueue_first hpop' (rnd 0) _ []).imp fun res h₃ => ?_
  obtain ⟨enqueued, t₁⟩ := res
  have harr : Outcome (niArrival P n (rnd 1) enqueued t₁) (Ejects n t) fun _ => True := by
    rcases h₃ with ⟨he, hall⟩ | ⟨rfl, pre, f, post, hq, hfull, hfree, hq', hnow, hlink, hslots⟩
    · obtain ⟨rfl, rfl⟩ := Prod.mk.inj he
      refine (niArrival_arrives (rnd 1) false fun _ => hpop').imp fun t₂ h => ?_
      exact h.ejects_of_full hall
    · refine (niArrival_arrives (rnd 1) true Bool.noConfusion).imp fun t₂ h => ?_
      exact h.ejects_of_first hq hfull hfree hq' hnow hlink hslots
  refine harr.imp fun t₂ h₄ => ?_
  refine (creditArrival_quiet (.extIn n) t₂).imp fun t₃ h₅ => ?_
  refine h₄.congr hpre ((h₅.1.ejectFrame (fun h => h) fun h => h).trans ?_)
  split_ifs
  · exact .rfl'
  · exact ⟨rfl, rfl, rfl, rfl⟩

end NocSwap
