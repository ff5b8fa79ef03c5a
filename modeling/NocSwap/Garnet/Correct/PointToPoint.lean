import NocSwap.Garnet.Correct.Credits

/-!
# Order between two points
-/

namespace NocSwap

variable {P : Params} {s t : Net} {r : Nat}

/-! ### The states of a router -/

/-- The states of router `r` between two steps of the network and within a wakeup of its own. -/
inductive RouterState (P : Params) (r : Nat) (t : Net) : Prop
  | between (h : Reachable P t)
  | during {s : Net} (h : Reachable P s) (hm : Moves P (.router r) (s.fire (.router r)) t)

theorem Inductive.routerState {I : Net → Prop} (hI : Inductive P I) (hr : r < P.numRouters)
    (h : RouterState P r t) : I t := by
  cases h with
  | between h => exact hI.reachable h
  | @during s h hm =>
    exact hI.moves (mem_consumers.mpr hr) (hI.fire s _ (hI.reachable h)) hm

theorem vcUnset (P : Params) : Inductive P fun s =>
    ∀ l v, (s.vc l v).outputPort = -1 ∧ (s.vc l v).outputVc = -1 where
  init _ _ := ⟨rfl, rfl⟩
  fire _ _ h := h
  tick _ h := h
  move s c s' _ h hm := by
    -- a channel is written on arrival and when its flit is granted an output port
    have hset {l : Link} {v : Nat} {x : VcRegs} (hx : x.outputPort = -1 ∧ x.outputVc = -1) :
        ∀ l' v', (set2 s.vc l v x l' v').outputPort = -1 ∧
          (set2 s.vc l v x l' v').outputVc = -1 := by
      intro l' v'
      by_cases hlv : l' = l ∧ v' = v
      · obtain ⟨rfl, rfl⟩ := hlv
        rwa [set2_same]
      · rw [set2_of_ne hlv]
        exact h l' v'
    cases hm with
    | @arrive r p f => exact hset (h p.link f.vc)
    | grant =>
      dsimp only
      split_ifs
      · exact hset ⟨rfl, rfl⟩
      · exact h
    | _ => exact h

theorem RouterState.receiversOk (hr : r < P.numRouters) (h : RouterState P r t) : ReceiversOk t :=
  (((NocSwap.receiversOk P).and ((sendersOk P).and (headTail P))).routerState hr h).2

def staged (s : Net) (l : Link) (v : Nat) (stage : FlitStage) (time : Nat) : Option Flit :=
  (s.buf (.inputVc l v)).head?.filter fun f => decide (f.time ≤ time) && f.isStage stage time

theorem staged_eq_some {l : Link} {v : Nat} {stage : FlitStage} {time : Nat} {f : Flit} :
    staged s l v stage time = some f ↔ ∃ fs, s.buf (.inputVc l v) = f :: fs ∧ f.time ≤ time ∧
      f.isStage stage time = true := by
  unfold staged
  rw [Option.filter_eq_some_iff, Bool.and_eq_true, decide_eq_true_eq, List.head?_eq_some_iff]
  exact ⟨fun ⟨⟨fs, hb⟩, h⟩ => ⟨fs, hb, h⟩, fun ⟨fs, hb, h⟩ => ⟨⟨fs, hb⟩, h⟩⟩

theorem needStage_eq (h : ReceiversOk s) (l : Link) (v : Nat) (stage : FlitStage) {time : Nat}
    (ht : s.now ≤ time) : needStage s l v stage time = .ok (staged s l v stage time).isSome := by
  have hstate := h.state l v
  have htime := h.time l v
  unfold needStage staged
  cases hb : s.buf (.inputVc l v) with
  | nil => rfl
  | cons f fs =>
    rw [hb, if_neg (List.cons_ne_nil f fs)] at hstate
    by_cases hf : f.time ≤ time
    · have hreq : (s.vc l v).state = .active ∧ (s.vc l v).stateTime ≤ time := by
        exact ⟨hstate, htime.trans ht⟩
      simp only [hf, if_true, require, hreq, List.head?_cons, Option.filter_some, decide_true,
        Bool.true_and]
      cases f.isStage stage time <;> rfl
    · simp [hf, pure, Except.pure]

/-- **`send_allowed` is the test for a free channel**: the search for an earlier flit finds none. -/
theorem sendAllowed_eq (hrecv : ReceiversOk s)
    (hport : ∀ l v, (s.vc l v).outputPort = -1 ∧ (s.vc l v).outputVc = -1) {invc outport : Nat}
    {o : Port} (hv : invc < P.numVcs) (ho : (P.outports r)[outport]? = some o) (l : Link) :
    sendAllowed P s r l invc outport = .ok (hasFreeVc P s o.link (invc / P.vcsPerVnet)) := by
  have hvnet : invc / P.vcsPerVnet < P.virtualNetworks :=
    Nat.div_lt_of_lt_mul (by rwa [Nat.mul_comm])
  have hsearch : Outcome (sendAllowed P s r l invc outport)
      (fun b => b = hasFreeVc P s o.link (invc / P.vcsPerVnet)) (fun _ => False) := by
    simp only [sendAllowed, getVnet, outPort, outcome_do, outcome_ite, hvnet, ho,
      Option.some.injEq, forall_eq']
    refine ⟨fun _ => ⟨?_, by simp⟩, by simp⟩
    cases hasFreeVc P s o.link (invc / P.vcsPerVnet) with
    | false => simp
    | true =>
      simp only [Bool.not_true, Bool.false_eq_true, not_false_eq_true, forall_const,
        false_implies, true_and]
      refine ⟨fun _ => trivial, fun _ => Outcome.mono (Outcome.anyM (T := fun _ => False) ?_)
        (fun b hb => ?_) (fun _ he => he)⟩
      · intro i _
        rw [needStage_eq hrecv _ _ _ le_rfl]
        have hne : ((-1 : Int) = (outport : Int)) = False := by
          simp only [eq_iff_iff, iff_false]
          omega
        cases (staged s l (invc / P.vcsPerVnet * P.vcsPerVnet + i) .sa s.now).isSome <;>
          simp [bind, Except.bind, pure, Except.pure, (hport _ _).1, hne]
      · cases b <;> simp_all
  obtain ⟨b, hb, rfl⟩ := hsearch.exists_ok
  exact hb

/-- No other channel of the input unit and virtual network holds an earlier ready flit for the same
port. -/
def SendInOrder (P : Params) (s : Net) (l : Link) (invc outport : Nat) : Prop :=
  ∀ v < P.numVcs, v ≠ invc → v / P.vcsPerVnet = invc / P.vcsPerVnet →
    ∀ f ∈ staged s l v .sa s.now, f.outport = outport →
      ¬ (s.vc l v).enqueueTime < (s.vc l invc).enqueueTime

instance (P : Params) (s : Net) (l : Link) (invc outport : Nat) :
    Decidable (SendInOrder P s l invc outport) := by
  unfold SendInOrder
  infer_instance

/-- **`send_allowed` keeps the order** if virtual networks have one channel, or if no other channel of
the input unit and virtual network is occupied. -/
theorem sendAllowed_inOrder (hr : r < P.numRouters) (h : RouterState P r t) (l : Link)
    {invc outport : Nat} {o : Port} (hv : invc < P.numVcs)
    (ho : (P.outports r)[outport]? = some o)
    (hone : P.vcsPerVnet = 1 ∨ ∀ v < P.numVcs, v ≠ invc →
      v / P.vcsPerVnet = invc / P.vcsPerVnet → t.buf (.inputVc l v) = []) :
    ∃ b, sendAllowed P t r l invc outport = .ok b ∧ (b = true → SendInOrder P t l invc outport) := by
  refine ⟨_, sendAllowed_eq (h.receiversOk hr) ((vcUnset P).routerState hr h) hv ho l,
    fun _ v hv hne hvnet f hf => ?_⟩
  obtain ⟨fs, hb, -⟩ := staged_eq_some.mp hf
  rcases hone with hone | hone
  · rw [hone, Nat.div_one, Nat.div_one] at hvnet
    exact absurd hvnet hne
  · cases hb.symm.trans (hone v hv hne hvnet)

/-- Three interfaces at one router after `n` steps with four messages for node `2`, ordered. -/
def orderedRun (n : Nat) : Option Net :=
  let m : Message := ⟨0, 0, 0, 0, .singleton 2⟩
  (run (.hub 0) [.protocol 0 (.send 1 m 1 0), .protocol 1 (.send 1 m 1 0),
    .protocol 2 (.send 1 m 1 0), .protocol 2 (.send 1 m 2 0)] (.init (.hub 0))).bind
    (simulate (.hub 0) n)

theorem orderedRun_reachable {n : Nat} (h : orderedRun n = some s) : Reachable (.hub 0) s := by
  unfold orderedRun at h
  exact reachable_of_run_simulate _ .init h

/-- The first flit of node `2` may be sent before the second one is there. -/
theorem sendAllowed_inOrder_only : ∃ s, orderedRun 12 = some s ∧
    s.buf (.inputVc (.extIn 2) 3) ≠ [] ∧ sendAllowed (.hub 0) s 0 (.extIn 2) 3 2 = .ok true ∧
      SendInOrder (.hub 0) s (.extIn 2) 3 2 := by
  have hrun : (orderedRun 12).map (fun s => (decide (s.buf (.inputVc (.extIn 2) 3) ≠ []),
      decide (∀ v < 6, v ≠ 3 → v / 3 = 1 → s.buf (.inputVc (.extIn 2) v) = []),
      (sendAllowed (.hub 0) s 0 (.extIn 2) 3 2).toOption)) = some (true, true, some true) := by
    decide +kernel
  obtain ⟨s, hs, hview⟩ := Option.map_eq_some_iff.mp hrun
  simp only [Prod.mk.injEq, decide_eq_true_eq] at hview
  obtain ⟨hheld, hothers, hsend⟩ := hview
  have hport : ((Params.hub 0).outports 0)[2]? = some ⟨.Local, .extOut 2⟩ := rfl
  obtain ⟨b, hb, hord⟩ := sendAllowed_inOrder (by decide) (.between (orderedRun_reachable hs))
    (.extIn 2) (by decide) hport (.inr hothers)
  obtain rfl := Except.ok.inj ((eq_ok_of_toOption hsend).symm.trans hb)
  exact ⟨s, hs, hheld, hb, hord rfl⟩

/-- Both flits of node `2` are ready, and the later one, in channel `4`, may be sent as well. -/
theorem sendAllowed_overtakes : ∃ s, orderedRun 14 = some s ∧ Reachable (.hub 0) s ∧
    (Params.hub 0).isVNetOrdered (4 / (Params.hub 0).vcsPerVnet) = true ∧
    sendAllowed (.hub 0) s 0 (.extIn 2) 4 2 = .ok true ∧
    ¬ SendInOrder (.hub 0) s (.extIn 2) 4 2 := by
  have hrun : (orderedRun 14).map (fun s => ((sendAllowed (.hub 0) s 0 (.extIn 2) 4 2).toOption,
      decide (SendInOrder (.hub 0) s (.extIn 2) 4 2))) = some (some true, false) := by
    decide +kernel
  obtain ⟨s, hs, hview⟩ := Option.map_eq_some_iff.mp hrun
  obtain ⟨hsend, hord⟩ := Prod.mk.inj hview
  exact ⟨s, hs, orderedRun_reachable hs, rfl, eq_ok_of_toOption hsend, of_decide_eq_false hord⟩

end NocSwap
