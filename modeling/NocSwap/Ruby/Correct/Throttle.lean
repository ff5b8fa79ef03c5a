import Mathlib.Algebra.BigOperators.Group.List.Basic
import NocSwap.Ruby.Throttle

/-!
# Bandwidth accounting of a throttle
-/

namespace NocSwap.Throttle

open List

variable {C : Config} {now : Nat} {rnd : Nat → Nat}

def movedSize (C : Config) (l : List Message) : Int := (l.map C.networkMessageToSize).sum

theorem movedSize_cons (m : Message) (l : List Message) :
    movedSize C (m :: l) = C.networkMessageToSize m + movedSize C l := rfl

namespace Work

variable {w w' : Work}

def balance (C : Config) (w : Work) : Int := movedSize C w.moved - w.unitsRemaining + w.bwRemaining

structure Follows (C : Config) (now : Nat) (w w' : Work) : Prop where
  nonneg : 0 ≤ w'.bwRemaining
  le : w'.bwRemaining ≤ w.bwRemaining
  balance : w'.balance C = w.balance C
  accepts : w.output.Accepts C.flags now C.linkLatency →
    w'.output.Accepts C.flags now C.linkLatency

theorem Follows.trans {w'' : Work} (h : Follows C now w w') (h' : Follows C now w' w'') :
    Follows C now w w'' :=
  ⟨h'.nonneg, h'.le.trans h.le, h'.balance.trans h.balance, fun hw => h'.accepts (h.accepts hw)⟩

theorem follows_pay (h : 0 ≤ w.bwRemaining) : Follows C now w w.pay := by
  have hunits := w.nonneg
  refine ⟨le_max_left .., ?_, ?_, id⟩
  · show max 0 (-(w.unitsRemaining - w.bwRemaining)) ≤ w.bwRemaining
    omega
  · show movedSize C w.moved - max 0 (w.unitsRemaining - w.bwRemaining) +
      max 0 (-(w.unitsRemaining - w.bwRemaining)) = _
    unfold Work.balance
    omega

variable {r : Nat}

theorem move_outcome (hbw : 0 ≤ w.bwRemaining) (hready : w.input.isReady now = true) :
    Outcome (w.move C now r) (Follows C now w)
      (fun _ => ¬ w.output.Accepts C.flags now C.linkLatency) := by
  obtain ⟨m, rest, hheap, htime⟩ := MessageBuffer.exists_of_isReady hready
  obtain ⟨input, m', hdeq⟩ := MessageBuffer.dequeue_of_ready hheap htime
  obtain ⟨m₀, rest₀, hheap₀, -, rfl, -⟩ := MessageBuffer.dequeue_ok hdeq
  obtain ⟨rfl, -⟩ := cons_eq_cons.mp (hheap₀.symm.trans hheap)
  unfold move
  rw [hheap, hdeq]
  show Outcome (w.output.enqueue C.flags _ now C.linkLatency r >>= _) _ _
  rw [outcome_bind]
  refine (w.output.enqueue_accepts C.flags _ now C.linkLatency r).mono (fun res hres => ?_)
    (fun _ he => he htime)
  refine ⟨hbw, le_refl _, ?_, hres⟩
  show movedSize C (m₀ :: w.moved) - (w.unitsRemaining + C.networkMessageToSize m₀) +
    w.bwRemaining = _
  rw [movedSize_cons]
  unfold Work.balance
  omega

theorem pass_outcome (hbw : 0 ≤ w.bwRemaining) : Outcome (w.pass C now r) (Follows C now w)
      (fun _ => ¬ w.output.Accepts C.flags now C.linkLatency) := by
  unfold pass
  split_ifs with h
  · rw [outcome_bind]
    exact (move_outcome hbw h.2).imp fun w₁ h₁ => h₁.trans (follows_pay h₁.nonneg)
  · exact follows_pay hbw

end Work

theorem operateLoop_outcome (w : Work) (hbw : 0 ≤ w.bwRemaining) :
    Outcome (operateLoop C now rnd w) (fun w' => w.Follows C now w' ∧ w'.goesOn now = false)
      (fun _ => ¬ w.output.Accepts C.flags now C.linkLatency) := by
  fun_induction operateLoop C now rnd w with
  | case1 w hgo w₁ hpass ih =>
    have h₁ := (Work.pass_outcome hbw).of_ok hpass
    exact (ih h₁.nonneg).mono (fun w' h => ⟨h₁.trans h.1, h.2⟩) fun _ he haccepts =>
      he (h₁.accepts haccepts)
  | case2 w hgo e hpass => exact (Work.pass_outcome hbw).of_error hpass
  | case3 w hgo => exact ⟨⟨hbw, le_refl _, rfl, id⟩, Bool.eq_false_iff.mpr hgo⟩

namespace Vnet

def Connected (v : Vnet) : Prop := v.input.isSome = true ∧ v.output.isSome = true

def waits (v : Vnet) (now : Nat) : Bool :=
  v.input.any (·.isReady now) || decide (0 < v.unitsRemaining)

def Accepts (C : Config) (now : Nat) (v : Vnet) : Prop :=
  ∀ output, v.output = some output → output.Accepts C.flags now C.linkLatency

end Vnet

def debt (vs : List Vnet) : Int := (vs.map Vnet.unitsRemaining).sum

structure Served (C : Config) (now : Nat) (vs : List Vnet) (a : Turn) (vs' : List Vnet)
    (a' : Turn) : Prop where
  units : ∀ v ∈ vs', 0 ≤ v.unitsRemaining
  nonneg : 0 ≤ a'.bwRemaining
  le : a'.bwRemaining ≤ a.bwRemaining
  balance : movedSize C a'.moved - debt vs' + a'.bwRemaining =
    movedSize C a.moved - debt vs + a.bwRemaining
  flag : a.scheduleWakeup = true → a'.scheduleWakeup = true
  scheduled : ∀ v ∈ vs', v.Connected → v.waits now = true → 0 < a'.bwRemaining →
    a'.scheduleWakeup = true

variable {a : Turn}

theorem Served.nil (h : 0 ≤ a.bwRemaining) : Served C now [] a [] a :=
  ⟨forall_mem_nil _, h, le_refl _, rfl, id, forall_mem_nil _⟩

variable {vs vs' : List Vnet} {a' : Turn}

theorem Served.append {us us' : List Vnet} {a₁ : Turn} (h : Served C now vs a vs' a₁)
    (h' : Served C now us a₁ us' a') : Served C now (vs ++ us) a (vs' ++ us') a' := by
  refine ⟨?_, h'.nonneg, h'.le.trans h.le, ?_, fun hflag => h'.flag (h.flag hflag), ?_⟩
  · exact forall_mem_append.mpr ⟨h.units, h'.units⟩
  · have h₁ := h.balance
    have h₂ := h'.balance
    simp only [debt, map_append, sum_append] at h₁ h₂ ⊢
    omega
  · rw [forall_mem_append]
    constructor
    · intro v hv hconn hwaits hbw
      -- the bandwidth left at the end was left before the second part
      exact h'.flag (h.scheduled v hv hconn hwaits (hbw.trans_le h'.le))
    · exact h'.scheduled

theorem Served.reverse
    (h : Served C now vs.reverse a vs' a') : Served C now vs a vs'.reverse a' := by
  have hdebt (us : List Vnet) : debt us.reverse = debt us := by
    unfold debt
    rw [map_reverse, sum_reverse]
  refine ⟨fun v hv => h.units v (mem_reverse.mp hv), h.nonneg, h.le, ?_, h.flag,
    fun v hv => h.scheduled v (mem_reverse.mp hv)⟩
  have hbalance := h.balance
  rw [hdebt] at hbalance ⊢
  exact hbalance

theorem operateVnet_outcome {v : Vnet} (hunits : 0 ≤ v.unitsRemaining) (hbw : 0 ≤ a.bwRemaining) :
    Outcome (operateVnet C now rnd v a) (fun res => Served C now [v] a [res.1] res.2)
      (fun _ => ¬ v.Accepts C now) := by
  unfold operateVnet
  split
  next input output hin hout =>
    rw [dif_pos hunits, outcome_bind]
    refine (operateLoop_outcome _ hbw).mono (fun w ⟨hw, hends⟩ => ?_) fun e he haccepts =>
      he (haccepts output hout)
    have hbalance := hw.balance
    refine ⟨?_, hw.nonneg, hw.le, ?_, ?_, ?_⟩
    · exact forall_mem_singleton.mpr w.nonneg
    · simp only [Work.balance, debt, map_singleton, sum_singleton] at hbalance ⊢
      omega
    · intro hflag
      show (a.scheduleWakeup || _) = true
      rw [hflag, Bool.true_or]
    · refine forall_mem_singleton.mpr fun _ hwaits hleft => ?_
      show (a.scheduleWakeup || _) = true
      have hwaits : w.waits now = true := hwaits
      have hleft : decide (0 < w.bwRemaining) = true := decide_eq_true hleft
      -- the loop has ended with something to do and to spend: for want of a slot
      unfold Work.goesOn at hends
      rw [hleft, hwaits] at hends ⊢
      simp only [Bool.and_self, Bool.true_and] at hends ⊢
      rw [hends, Bool.not_false, Bool.or_true]
  next hnone =>
    refine ⟨forall_mem_singleton.mpr hunits, hbw, le_refl _, rfl, id, ?_⟩
    refine forall_mem_singleton.mpr fun hconn => ?_
    obtain ⟨input, hin⟩ := Option.isSome_iff_exists.mp hconn.1
    obtain ⟨output, hout⟩ := Option.isSome_iff_exists.mp hconn.2
    exact absurd hout (hnone input output hin)

theorem operateVnets_outcome (hunits : ∀ v ∈ vs, 0 ≤ v.unitsRemaining) (hbw : 0 ≤ a.bwRemaining) :
    Outcome (operateVnets C now rnd vs a) (fun res => Served C now vs a res.1 res.2)
      (fun _ => ¬ ∀ v ∈ vs, v.Accepts C now) := by
  induction vs generalizing a with
  | nil => exact .nil hbw
  | cons v vs ih =>
    obtain ⟨hv, hvs⟩ := forall_mem_cons.mp hunits
    unfold operateVnets
    rw [outcome_bind]
    refine (operateVnet_outcome hv hbw).mono (fun ⟨v', a₁⟩ h₁ => ?_) fun e he h =>
      he (h v (mem_cons_self ..))
    rw [outcome_bind]
    exact (ih hvs h₁.nonneg).mono (fun ⟨vs', a'⟩ h => h₁.append h) fun e he h =>
      he fun u hu => h u (mem_cons_of_mem _ hu)

structure Woken (C : Config) (now : Nat) (t t' : Throttle) (again : Bool) : Prop where
  units : ∀ v ∈ t'.vnets, 0 ≤ v.unitsRemaining
  le : t.spent ≤ t'.spent
  bandwidth : t'.spent ≤ t.spent + C.getLinkBandwidth
  balance : movedSize C t'.moved - debt t'.vnets - t'.spent =
    movedSize C t.moved - debt t.vnets - t.spent
  scheduled : ∀ v ∈ t'.vnets, v.Connected → v.waits now = true → again = true

variable {t : Throttle}

theorem Served.woken (n : Nat)
    (h : Served C now t.vnets ⟨C.getLinkBandwidth, false, t.moved⟩ vs a) :
    Woken C now t ⟨vs, n, a.moved, t.spent + (C.getLinkBandwidth - a.bwRemaining)⟩
      (!(decide (0 < a.bwRemaining) && !a.scheduleWakeup)) := by
  have hnonneg := h.nonneg
  have hle := h.le
  have hbalance := h.balance
  dsimp only at hle hbalance
  refine ⟨h.units, ?_, ?_, ?_, fun v hv hconn hwaits => ?_⟩
  · dsimp only
    omega
  · dsimp only
    omega
  · dsimp only
    omega
  · by_cases hbw : 0 < a.bwRemaining
    · rw [h.scheduled v hv hconn hwaits hbw, Bool.not_true, Bool.and_false, Bool.not_false]
    · rw [decide_eq_false hbw, Bool.false_and, Bool.not_false]

theorem wakeup_outcome (hB : 0 < C.getLinkBandwidth)
    (hunits : ∀ v ∈ t.vnets, 0 ≤ v.unitsRemaining) :
    Outcome (wakeup C now rnd t) (fun res => Woken C now t res.1 res.2)
      (fun _ => ¬ ∀ v ∈ t.vnets, v.Accepts C now) := by
  unfold wakeup
  rw [outcome_bind, outcome_require]
  refine ⟨fun _ => ?_, absurd hB⟩
  dsimp only
  split_ifs
  · rw [outcome_bind]
    exact (operateVnets_outcome hunits hB.le).imp fun ⟨vs, a⟩ h => h.woken _
  · rw [outcome_bind]
    have hreverse : ∀ v ∈ t.vnets.reverse, 0 ≤ v.unitsRemaining := fun v hv =>
      hunits v (mem_reverse.mp hv)
    exact (operateVnets_outcome hreverse hB.le).mono (fun ⟨vs, a⟩ h => h.reverse.woken _)
      fun _ he h => he fun v hv => h v (mem_reverse.mp hv)

theorem Run.balanced (hB : 0 < C.getLinkBandwidth) (h : Run C t) :
    (∀ v ∈ t.vnets, 0 ≤ v.unitsRemaining) ∧ movedSize C t.moved = t.spent + debt t.vnets := by
  induction h with
  | @start vnets h =>
    have hzero : debt vnets = 0 := sum_eq_zero (forall_mem_map.mpr h)
    refine ⟨fun v hv => (h v hv).ge, ?_⟩
    show 0 = 0 + debt vnets
    rw [hzero, add_zero]
  | refill h hmap ih =>
    refine ⟨fun v hv => ?_, ?_⟩
    · have hmem := mem_map_of_mem (f := Vnet.unitsRemaining) hv
      rw [hmap] at hmem
      obtain ⟨u, hu, hsame⟩ := mem_map.mp hmem
      rw [← hsame]
      exact ih.1 u hu
    · show _ = _ + debt _
      unfold debt
      rw [hmap]
      exact ih.2
  | wake now rnd h hw ih =>
    have hwoken := (wakeup_outcome hB ih.1).of_ok hw
    refine ⟨hwoken.units, ?_⟩
    have hbalance := hwoken.balance
    have hbefore := ih.2
    dsimp only at hbalance
    omega

/-- **Bandwidth accounting.** What has been moved is paid for or owed; a wakeup spends at most the
bandwidth, and calls for another one while a virtual network has work. -/
theorem wakeup_accounts {t : Throttle} (hB : 0 < C.getLinkBandwidth) (h : Run C t) :
    movedSize C t.moved = t.spent + debt t.vnets ∧ (∀ v ∈ t.vnets, 0 ≤ v.unitsRemaining) ∧
      ∀ now rnd,
        ((∀ v ∈ t.vnets, v.Accepts C now) → ∃ res, wakeup C now rnd t = .ok res) ∧
        ∀ t' again, wakeup C now rnd t = .ok (t', again) →
          t.spent ≤ t'.spent ∧ t'.spent ≤ t.spent + C.getLinkBandwidth ∧
          ∀ v ∈ t'.vnets, v.Connected → v.waits now = true → again = true := by
  obtain ⟨hunits, hbalance⟩ := h.balanced hB
  refine ⟨hbalance, hunits, fun now rnd => ⟨fun haccepts => ?_, fun t' again hw => ?_⟩⟩
  · have hout : Outcome (wakeup C now rnd t) (fun res => Woken C now t res.1 res.2)
        fun _ => False :=
      (wakeup_outcome hB hunits).mono (fun _ h => h) fun _ he => he haccepts
    obtain ⟨res, hres, -⟩ := hout.exists_ok
    exact ⟨res, hres⟩
  · have hwoken := (wakeup_outcome hB hunits).of_ok hw
    exact ⟨hwoken.le, hwoken.bandwidth, hwoken.scheduled⟩

def Config.narrow : Config where
  endpointBandwidth := 1000
  linkBandwidthMultiplier := 1
  linkLatency := 1
  messageSize := fun _ => 8
  flags := ⟨false, false⟩

def loadedQueue : MessageBuffer :=
  { MessageBuffer.new 0 true false with prioHeap := [⟨0, 1, 0, 1, .singleton 0⟩] }

def loaded : Throttle := ⟨[⟨some loadedQueue, some (.new 0 true false), 0⟩], 0, [], 0⟩

theorem wakeup_accounts_loaded : ∃ t' again,
    wakeup .narrow 1 (fun _ => 0) loaded = .ok (t', again) ∧ 0 ≤ t'.spent ∧ t'.spent ≤ 1000 ∧
    ∀ v ∈ t'.vnets, v.Connected → v.waits 1 = true → again = true := by
  have hrun : Run .narrow loaded := .start (forall_mem_singleton.mpr rfl)
  obtain ⟨-, -, hwakeup⟩ := wakeup_accounts (by decide) hrun
  obtain ⟨hreturns, hwoken⟩ := hwakeup 1 fun _ => 0
  have haccepts : ∀ v ∈ loaded.vnets, v.Accepts .narrow 1 := by
    refine forall_mem_singleton.mpr fun output hout => ?_
    obtain rfl := Option.some.inj hout
    exact ⟨by decide, fun _ _ _ => by decide⟩
  obtain ⟨⟨t', again⟩, hw⟩ := hreturns haccepts
  exact ⟨t', again, hw, hwoken t' again hw⟩

/-- A message for a virtual network without an output queue does not keep the throttle awake. -/
theorem unconnected_sleeps : ∃ t t' : Throttle, Run .narrow t ∧
    wakeup .narrow 1 (fun _ => 0) t = .ok (t', false) ∧ ∃ v ∈ t'.vnets, v.waits 1 = true :=
  ⟨⟨[⟨some loadedQueue, none, 0⟩], 0, [], 0⟩, ⟨[⟨some loadedQueue, none, 0⟩], 1, [], 0⟩,
    .start (forall_mem_singleton.mpr rfl), rfl, _, mem_singleton.mpr rfl, rfl⟩

end NocSwap.Throttle
