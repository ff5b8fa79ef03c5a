import NocSwap.Garnet.Correct.RoundRobin
import NocSwap.Lib.SameOutcome

/-!
# The matrices of the switch allocator as a list of requests
-/

namespace NocSwap

open Option List

variable {P : Params} {a : SwitchAllocator} {s : Net} {r : Nat} {reqs : Requests}

def Requests.lookup (reqs : Requests) (o i : Nat) : Option Nat :=
  (reqs.find? fun q => decide (q.1 = o ∧ q.2.1 = i)).map fun q => q.2.2

theorem Requests.lookup_cons (o i v : Nat) (reqs : Requests) (o' i' : Nat) :
    Requests.lookup ((o, i, v) :: reqs) o' i' =
      if o' = o ∧ i' = i then some v else Requests.lookup reqs o' i' := by
  unfold Requests.lookup
  by_cases h : o' = o ∧ i' = i
  · obtain ⟨rfl, rfl⟩ := h
    simp
  · rw [if_neg h, find?_cons_of_neg]
    rintro hq
    obtain ⟨rfl, rfl⟩ := of_decide_eq_true hq
    exact h ⟨rfl, rfl⟩

theorem Requests.mem_of_lookup {o i v : Nat} (h : Requests.lookup reqs o i = some v) :
    (o, i, v) ∈ reqs := by
  obtain ⟨q, hq, rfl⟩ := map_eq_some_iff.mp h
  have hmem := mem_of_find?_eq_some hq
  obtain ⟨rfl, rfl⟩ := of_decide_eq_true (find?_some hq :)
  exact hmem

theorem findRequest_outport (l : Link) (itr : Nat) : ∀ invc, Outcome (findRequest P s r l itr invc)
      (fun res => ∀ q ∈ res, q.1 < (P.outports r).length) fun _ => True := by
  induction itr with
  | zero => exact fun _ _ h => nomatch h
  | succ itr ih =>
    intro invc
    simp only [findRequest, outcome_bind]
    refine outcome_trivial fun ready => ?_
    cases ready with
    | false => exact ih _
    | true =>
      simp only [if_true, outcome_bind]
      refine outcome_trivial fun f => ?_
      simp only [sendAllowed, outcome_do, outPort]
      refine outcome_trivial fun vnet => fun o ho => ?_
      -- whatever the test gives, the port has been found
      refine outcome_trivial fun allowed => ?_
      cases allowed with
      | false => exact ih _
      | true =>
        rintro q ⟨⟩
        exact (List.getElem?_eq_some_iff.mp ho).1

namespace SwitchAllocator

def Clear (a : SwitchAllocator) : Prop := ∀ o i, a.portRequests o i = false

/-- The matrices hold the requests of the list for the output ports from `k` on, and no others. -/
structure Holds (k : Nat) (a : SwitchAllocator) (reqs : Requests) : Prop where
  requests : ∀ o, k ≤ o → ∀ i, a.portRequests o i = (Requests.lookup reqs o i).isSome
  winners : ∀ o i v, Requests.lookup reqs o i = some v → a.vcWinners o i = v
  within : ∀ o i, a.portRequests o i = true → (Requests.lookup reqs o i).isSome = true

theorem Holds.nil (h : a.Clear) : Holds 0 a [] where
  requests o _ i := h o i
  winners _ _ _ h := nomatch h
  within o i h' := by
    rw [h o i] at h'
    cases h'

theorem Holds.request (h : Holds 0 a reqs) (o i v : Nat) :
    Holds 0 (a.request o i v) ((o, i, v) :: reqs) where
  requests o' _ i' := by
    rw [Requests.lookup_cons, request_portRequests, set2_apply]
    split_ifs
    · rfl
    · exact h.requests o' (Nat.zero_le _) i'
  winners o' i' v' := by
    rw [Requests.lookup_cons, request_vcWinners, set2_apply]
    split_ifs
    · exact some.inj
    · exact h.winners o' i' v'
  within o' i' := by
    rw [Requests.lookup_cons, request_portRequests, set2_apply]
    split_ifs
    · exact fun _ => rfl
    · exact h.within o' i'

theorem Holds.removeRequest {k : Nat} (h : Holds k a reqs) (i : Nat) :
    Holds (k + 1) (a.removeRequest k i) reqs where
  requests o ho j := by
    rw [removeRequest_portRequests, set2_of_ne (by omega)]
    exact h.requests o (by omega) j
  winners := h.winners
  within o j hj := by
    rw [removeRequest_portRequests, set2_apply] at hj
    split_ifs at hj
    exact h.within o j hj

theorem Holds.succ {k : Nat} (h : Holds k a reqs) : Holds (k + 1) a reqs :=
  ⟨fun o ho => h.requests o (by omega), h.winners, h.within⟩

theorem Holds.findGrant_eq {k : Nat} (h : Holds k a reqs) (n itr : Nat) : ∀ i,
    findGrant reqs k n itr i = (a.findWinner k n itr i).map fun i => (i, a.vcWinners k i) := by
  induction itr with
  | zero => exact fun _ => rfl
  | succ itr ih =>
    intro i
    have hreq := h.requests k le_rfl i
    have hwin := h.winners k i
    unfold Requests.lookup at hreq hwin
    rw [findGrant, findWinner]
    cases hq : reqs.find? fun q => decide (q.1 = k ∧ q.2.1 = i) with
    | none =>
      rw [hq] at hreq
      simp only [hreq, map_none, isSome_none, Bool.false_eq_true, if_false]
      exact ih _
    | some q =>
      rw [hq] at hreq hwin
      simp only [hreq, map_some, isSome_some, if_true]
      rw [hwin q.2.2 rfl]

theorem arbitrateInports_same (ha : a.Clear) (r : Nat) (s : Net) :
    SameOutcome (fun x y => x.2 = y.1 ∧ Holds 0 x.1 y.2 ∧ ∀ q ∈ y.2, q.1 < (P.outports r).length ∧
        q.2.1 < (P.inports r).length)
      (a.arbitrateInports P r s) (NocSwap.arbitrateInports P r s) := by
  refine SameOutcome.foldlM _ ?_ (a, s) (s, []) ⟨rfl, .nil ha, fun _ h => nomatch h⟩
  rintro ⟨p, i⟩ he ⟨a', s'⟩ ⟨_, reqs⟩ ⟨rfl, hholds, hrange⟩
  have hi : i < (P.inports r).length := by
    have := mem_zipIdx he
    omega
  have hport := findRequest_outport (P := P) (s := s') (r := r) p.link P.numVcs
    ((s'.router r).roundRobinInvc i)
  dsimp only
  cases hf : findRequest P s' r p.link P.numVcs ((s'.router r).roundRobinInvc i) with
  | error e => exact rfl
  | ok res =>
    rcases res with _ | ⟨o, v⟩
    · exact ⟨rfl, hholds, hrange⟩
    · refine ⟨rfl, hholds.request o i v, fun q hq => ?_⟩
      rcases List.mem_cons.mp hq with rfl | hq
      · exact ⟨hport.of_ok hf (o, v) rfl, hi⟩
      · exact hrange q hq

theorem arbitrateOutports_same (h : Holds 0 a reqs) (r : Nat) (s : Net) :
    SameOutcome (fun x s' => x.net = s' ∧ Holds (P.outports r).length x.alloc reqs)
      (a.arbitrateOutports P r s) (NocSwap.arbitrateOutports P r reqs s) := by
  refine SameOutcome.foldlM_range (R := fun k (x : Round) s' => x.net = s' ∧ Holds k x.alloc reqs)
    _ ?_ ⟨[], a, s⟩ s ⟨rfl, h⟩
  rintro k - ⟨gs, a', s'⟩ _ ⟨rfl, hholds⟩
  rw [grantOutport, hholds.findGrant_eq]
  cases a'.findWinner k (P.inports r).length (P.inports r).length
      ((s'.router r).roundRobinInport k) with
  | none => exact ⟨rfl, hholds.succ⟩
  | some i =>
    simp only [map_some]
    cases grant P r i (a'.vcWinners k i) k s' with
    | error e => exact rfl
    | ok t => exact ⟨rfl, hholds.removeRequest i⟩

theorem wakeup_same (ha : a.Clear) (r : Nat) (s : Net) :
    SameOutcome (fun x s' => x.net = s' ∧ x.alloc.Clear) (a.wakeup P r s)
      (switchAllocatorWakeup P r s) := by
  refine (arbitrateInports_same ha r s).bind ?_
  rintro ⟨a1, s1⟩ ⟨_, reqs⟩ ⟨rfl, hholds, hrange⟩
  refine (arbitrateOutports_same hholds r s1).bind ?_
  rintro ⟨gs, a2, s2⟩ _ ⟨rfl, hholds'⟩
  dsimp only
  cases checkForWakeup P r s2 with
  | error e => exact rfl
  | ok s3 =>
    refine ⟨rfl, fun o i => ?_⟩
    simp only [clearRequestVector_portRequests]
    split_ifs with hin
    · rfl
    · rw [Bool.eq_false_iff]
      intro hreq
      obtain ⟨v, hv⟩ := isSome_iff_exists.mp (hholds'.within o i hreq)
      exact hin (hrange _ (Requests.mem_of_lookup hv))

end SwitchAllocator

namespace NetSA

variable {x y : NetSA} {l : Label}

theorem exec_same (hx : ∀ r, (x.alloc r).Clear) (l : Label) :
    SameOutcome (fun y s' => y.net = s' ∧ ∀ r, (y.alloc r).Clear) (exec P l x)
      (NocSwap.exec P l x.net) := by
  have hother : SameOutcome (fun y s' => y.net = s' ∧ ∀ r, (y.alloc r).Clear)
      (do let s ← NocSwap.exec P l x.net; return (⟨s, x.alloc⟩ : NetSA))
      (NocSwap.exec P l x.net) := by
    cases NocSwap.exec P l x.net with
    | error e => exact rfl
    | ok s => exact ⟨rfl, hx⟩
  match l with
  | .wake (.router r) rnd =>
    show SameOutcome _ _ (routerWakeup P r rnd (x.net.fire (.router r)))
    rw [routerWakeup_eq]
    show SameOutcome _ (beforeAllocation P r rnd _ >>= _) (beforeAllocation P r rnd _ >>= _)
    cases beforeAllocation P r rnd (x.net.fire (.router r)) with
    | error e => exact rfl
    | ok t =>
      refine (SwitchAllocator.wakeup_same (hx r) r t).bind ?_
      rintro ⟨gs, a, t1⟩ _ ⟨rfl, hclear⟩
      dsimp only
      cases crossbarWakeup P r t1 with
      | error e => exact rfl
      | ok t2 =>
        refine ⟨rfl, fun r' => ?_⟩
        show (Function.update x.alloc r a r').Clear
        rcases eq_or_ne r' r with rfl | hne
        · rwa [Function.update_self]
        · rw [Function.update_of_ne hne]
          exact hx r'
  | .wake (.ni n) rnd | .wake (.link l) rnd | .wake (.creditLink l) rnd | .protocol n op | .tick =>
    exact hother

theorem Reachable.refines (h : Reachable P x) :
    NocSwap.Reachable P x.net ∧ ∀ r, (x.alloc r).Clear := by
  induction h with
  | init => exact ⟨.init, fun _ _ _ => rfl⟩
  | step l _ hen hex ih =>
    obtain ⟨s', hs', hnet, hclear⟩ := (exec_same ih.2 l).of_ok hex
    exact ⟨.step l ih.1 hen (hnet ▸ hs'), hclear⟩

theorem exists_netSA (h : NocSwap.Reachable P s) : ∃ x, Reachable P x ∧ x.net = s := by
  induction h with
  | init => exact ⟨NetSA.init P, .init, rfl⟩
  | @step s s' l _ hen hex ih =>
    obtain ⟨x, hx, rfl⟩ := ih
    have hsame := exec_same (P := P) hx.refines.2 l
    cases hy : exec P l x with
    | error e =>
      rw [hsame.of_error hy] at hex
      cases hex
    | ok y =>
      obtain ⟨t, ht, hnet, -⟩ := hsame.of_ok hy
      exact ⟨y, .step l hx hen hy, hnet.trans (Except.ok.inj (ht.symm.trans hex))⟩

end NetSA

end NocSwap
