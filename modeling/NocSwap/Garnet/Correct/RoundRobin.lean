import NocSwap.Garnet.SwitchAllocator
import NocSwap.Garnet.Correct.Refine
import NocSwap.Garnet.Correct.SwapRecord

/-!
# The round-robin pointers
-/

namespace NocSwap

open Function

variable {P : Params} {s s' t : Net} {r : Nat}

theorem rrNext_lt {n i : Nat} (hn : 0 < n) : rrNext n i < n := by
  unfold rrNext
  split_ifs <;> omega

theorem rrNext_update_lt {n : Nat} (hn : 0 < n) {g : Nat → Nat} (h : ∀ j, g j < n) (i j : Nat) :
    update g i (rrNext n (g i)) j < n := by
  rcases eq_or_ne j i with rfl | hj
  · rw [update_self]
    exact rrNext_lt hn
  · rw [update_of_ne hj]
    exact h j

theorem outcome_trivial {α : Type} {x : Except Fault α} {Q : α → Prop} (h : ∀ a, Q a) :
    Outcome x Q fun _ => True :=
  .intro (fun a _ => h a) fun _ _ => trivial

theorem beforeAllocation_rr (r : Nat) (rnd : Nat → Nat) (s : Net) :
    Yields Net.roundRobin s.roundRobin (beforeAllocation P r rnd s) := by
  refine Yields.bind (π := Net.roundRobin) (b := s.roundRobin) ?_ fun s₁ hs₁ => ?_
  · refine .ite (fun _ => ⟨fun s₁ hs₁ => ?_⟩) fun _ => .pure rfl
    exact (swapWakeup_logged r rnd hs₁).2
  refine Yields.bind
    (Yields.foldlM (fun _ _ _ hs => (inputUnitWakeup_aside ..).roundRobin.of_eq hs) s₁ hs₁)
    fun s₂ hs₂ => ?_
  exact Yields.foldlM (fun _ _ _ hs => (creditArrival_aside ..).roundRobin.of_eq hs) s₂ hs₂

structure RoundRobinOk (P : Params) (s : Net) : Prop where
  invc : 0 < P.numVcs → ∀ r i, (s.router r).roundRobinInvc i < P.numVcs
  inport : ∀ r, 0 < (P.inports r).length → ∀ o,
    (s.router r).roundRobinInport o < (P.inports r).length

namespace RoundRobinOk

section

variable (h : RoundRobinOk P s)
include h

theorem same (hs : s'.roundRobin = s.roundRobin) : RoundRobinOk P s' where
  invc hn r i := by
    rw [(Prod.mk.inj (congrFun hs r)).1]
    exact h.invc hn r i
  inport r hn o := by
    rw [(Prod.mk.inj (congrFun hs r)).2]
    exact h.inport r hn o

theorem of_router_eq (hs : s'.router = s.router) : RoundRobinOk P s' :=
  h.same (funext fun r => by rw [Net.roundRobin, hs]; rfl)

theorem setRouter {x : RouterRegs} (hv : 0 < P.numVcs → ∀ i, x.roundRobinInvc i < P.numVcs)
    (hp : 0 < (P.inports r).length → ∀ o, x.roundRobinInport o < (P.inports r).length) :
    RoundRobinOk P (s.setRouter r x) where
  invc hn r' i := by
    rw [Net.setRouter_router]
    rcases eq_or_ne r' r with rfl | hr
    · rw [update_self]
      exact hv hn i
    · rw [update_of_ne hr]
      exact h.invc hn r' i
  inport r' hn o := by
    rw [Net.setRouter_router]
    rcases eq_or_ne r' r with rfl | hr
    · rw [update_self]
      exact hp hn o
    · rw [update_of_ne hr]
      exact h.inport r' hn o

theorem advanceInvc (r i : Nat) : RoundRobinOk P (s.advanceInvc P r i) :=
  h.setRouter (fun hn => rrNext_update_lt hn (h.invc hn r) i) fun hn => h.inport r hn

theorem advanceInport (r o : Nat) : RoundRobinOk P (s.advanceInport P r o) :=
  h.setRouter (fun hn => h.invc hn r) fun hn => rrNext_update_lt hn (h.inport r hn) o

end

end RoundRobinOk

theorem grant_rr (h : RoundRobinOk P s) (r i v o : Nat) :
    Outcome (grant P r i v o s) (RoundRobinOk P) fun _ => True := by
  refine .intro (fun s' hs' => (h.advanceInport r o).same ?_) fun _ _ => trivial
  exact congrArg Prod.snd ((grant_aside ..).of_ok s' hs')

theorem arbitrateInports_rr (h : RoundRobinOk P s) (r : Nat) :
    Outcome (arbitrateInports P r s) (fun res => RoundRobinOk P res.1) fun _ => True := by
  refine Outcome.foldlM (I := fun acc : Net × Requests => RoundRobinOk P acc.1) _
    (fun e _ acc hacc => ?_) (s, []) h
  rw [outcome_bind]
  refine outcome_trivial fun request => ?_
  rcases request with _ | q
  · exact hacc
  · exact hacc.advanceInvc r e.2

theorem arbitrateOutports_rr (h : RoundRobinOk P s) (r : Nat) (reqs : Requests) :
    Outcome (arbitrateOutports P r reqs s) (RoundRobinOk P) fun _ => True := by
  refine Outcome.foldlM (I := RoundRobinOk P) _ (fun o _ s' hs' => ?_) s h
  split
  · exact grant_rr hs' ..
  · exact hs'

theorem Moves.router_eq {c : Consumer} (h : Moves P c s s') (hc : ∀ r, c ≠ .router r) :
    s'.router = s.router := by
  induction h with
  | refl => rfl
  | tail _ hm ih =>
    refine Eq.trans ?_ ih
    cases hm with
    | routerRegs r | @arrive r | @ptr r | clearSend r | @swap r | @bailOut r | @grant r =>
      exact absurd rfl (hc r)
    | _ => rfl

theorem routerWakeup_eq (r : Nat) (rnd : Nat → Nat) (s : Net) : routerWakeup P r rnd s = (do
      let s ← beforeAllocation P r rnd s
      let s ← switchAllocatorWakeup P r s
      crossbarWakeup P r s) := by
  unfold routerWakeup beforeAllocation beforePipeline pipelineWakeup
  split_ifs <;> simp only [bind_assoc, pure_bind]

theorem routerWakeup_rr (h : RoundRobinOk P s) (r : Nat) (rnd : Nat → Nat) :
    Outcome (routerWakeup P r rnd s) (RoundRobinOk P) fun _ => True := by
  simp only [routerWakeup_eq, switchAllocatorWakeup, outcome_bind]
  refine .intro (fun s₁ hs₁ => ?_) fun _ _ => trivial
  have h₁ : RoundRobinOk P s₁ := h.same ((beforeAllocation_rr ..).of_ok s₁ hs₁)
  refine (arbitrateInports_rr h₁ r).imp fun res h₂ => ?_
  refine (arbitrateOutports_rr h₂ r res.2).imp fun s₃ h₃ => ?_
  refine .intro (fun s₄ hs₄ => .intro (fun s₅ hs₅ => ?_) fun _ _ => trivial) fun _ _ => trivial
  exact (h₃.same ((checkForWakeup_aside ..).roundRobin.of_ok s₄ hs₄)).same
    ((crossbarWakeup_aside ..).roundRobin.of_ok s₅ hs₅)

theorem roundRobinOk (h : Reachable P s) : RoundRobinOk P s := by
  induction h with
  | init => exact ⟨fun hn _ _ => hn, fun _ hn _ => hn⟩
  | @step s s' l _ hen hex ih =>
    have hmoves := (exec_outcome hen).of_ok hex
    cases l with
    | tick => exact hmoves ▸ ih.of_router_eq rfl
    | protocol n op => exact ih.of_router_eq (hmoves.router_eq (by simp))
    | wake c rnd =>
      have hfire : RoundRobinOk P (s.fire c) := ih.of_router_eq rfl
      cases c with
      | router r => exact (routerWakeup_rr hfire r rnd).of_ok hex
      | ni n | link l | creditLink l => exact hfire.of_router_eq (hmoves.1.router_eq (by simp))

end NocSwap
