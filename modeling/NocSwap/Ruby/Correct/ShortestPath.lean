import Mathlib.Order.Bounds.Basic
import NocSwap.Lib.Walk
import NocSwap.Ruby.Correct.Topology

/-!
# All-pairs shortest paths
-/

namespace NocSwap.Topology

open List

variable {nodes : Nat} {weights : Nat → Nat → Nat} {latencies : Nat → Nat → Int}

/-- The `while` loop of `extend_shortest_path`: it ends with a turn without a change. -/
inductive Ends (nodes : Nat) : PathMatrices → PathMatrices → Prop
  | stop {m m' : PathMatrices} (h : pass nodes m = (m', false)) : Ends nodes m m'
  | again {m m₁ m' : PathMatrices} (h : pass nodes m = (m₁, true)) (rest : Ends nodes m₁ m') :
      Ends nodes m m'

theorem extendShortestPath_ends (nodes fuel : Nat) : ∀ m : PathMatrices, total nodes m.dist < fuel →
      Ends nodes m (extendShortestPath nodes fuel m) := by
  induction fuel with
  | zero => exact fun m h => absurd h (Nat.not_lt_zero _)
  | succ fuel ih =>
    intro m hfuel
    have hless := (pass_relaxed nodes m).less
    unfold extendShortestPath
    split
    · rename_i m' hm'
      rw [hm'] at hless
      exact .again hm' (ih m' ((hless rfl).trans_le (Nat.le_of_lt_succ hfuel)))
    · rename_i m' hm'
      exact .stop hm'

/-- The loop over `k` has found nothing shorter for `(i, j)`, or a detour with `inter_switches` up
to date. -/
def Found (m : PathMatrices) (nodes i j : Nat) (s : RelaxState) : Prop :=
  s = ⟨m.dist i j, none, m.interSwitches⟩ ∨
    ∃ k < nodes, m.dist i k + m.dist k j < m.dist i j ∧ s = ⟨m.dist i k + m.dist k j, some k,
      set2 m.interSwitches i j (m.interSwitches i k + m.interSwitches k j + 1)⟩

variable {m : PathMatrices} {i j : Nat} {s : RelaxState}

theorem Found.minimum_le (h : Found m nodes i j s) : s.minimum ≤ m.dist i j := by
  rcases h with rfl | ⟨k, -, hlt, rfl⟩
  · exact le_refl _
  · exact hlt.le

theorem Found.interSwitches_of_ne {a c : Nat} (h : Found m nodes i j s) (hne : ¬ (a = i ∧ c = j)) :
    s.interSwitches a c = m.interSwitches a c := by
  rcases h with rfl | ⟨k, -, -, rfl⟩
  · rfl
  · exact set2_of_ne hne

theorem Found.set2_interSwitches (h : Found m nodes i j s) (x : Int) :
    set2 s.interSwitches i j x = set2 m.interSwitches i j x := by
  rcases h with rfl | ⟨k, -, -, rfl⟩
  · rfl
  · exact set2_idem ..

theorem Found.step {k : Nat} (hi : m.dist i i = 0) (hj : m.dist j j = 0) (hk : k < nodes)
    (h : Found m nodes i j s) : Found m nodes i j (relaxStep m.dist i j s k) := by
  dsimp only [relaxStep]
  split_ifs with hmin
  · have hlt : m.dist i k + m.dist k j < s.minimum := by omega
    have hless := hlt.trans_le h.minimum_le
    -- a detour over `i` or `j` itself is no shorter
    have hki : k ≠ i := by
      rintro rfl
      omega
    have hkj : k ≠ j := by
      rintro rfl
      omega
    refine .inr ⟨k, hk, hless, ?_⟩
    rw [h.set2_interSwitches, h.interSwitches_of_ne fun he => hkj he.2,
      h.interSwitches_of_ne fun he => hki he.1, min_eq_right hlt.le]
  · exact h

theorem relax_found (hi : m.dist i i = 0) (hj : m.dist j j = 0) :
    Found m nodes i j ((List.range nodes).foldl (relaxStep m.dist i j)
      ⟨m.dist i j, none, m.interSwitches⟩) := by
  suffices hloop : ∀ l : List Nat, (∀ k ∈ l, k < nodes) → ∀ s, Found m nodes i j s →
      Found m nodes i j (l.foldl (relaxStep m.dist i j) s) from
    hloop _ (fun k hk => mem_range.mp hk) _ (.inl rfl)
  intro l
  induction l with
  | nil => exact fun _ s hs => hs
  | cons k l ih =>
    intro hl s hs
    rw [foldl_cons]
    obtain ⟨hk, hl⟩ := forall_mem_cons.mp hl
    exact ih hl _ (hs.step hi hj hk)

/-- The path from `i` to `j` through `ks` accounts for the entry `(i, j)` of all three matrices. -/
structure PathFor (nodes : Nat) (weights : Nat → Nat → Nat) (latencies : Nat → Nat → Int)
    (m : PathMatrices) (i j : Nat) (ks : List Nat) : Prop where
  nodes_lt : ∀ k ∈ ks, k < nodes
  dist : pathSum weights i ks j = m.dist i j
  latency : pathSum latencies i ks j = m.latencies i j
  interSwitches : (ks.length : Int) = m.interSwitches i j

structure Witnessed (nodes : Nat) (weights : Nat → Nat → Nat) (latencies : Nat → Nat → Int)
    (m : PathMatrices) : Prop where
  self : ∀ i < nodes, m.dist i i = 0
  path : ∀ i < nodes, ∀ j < nodes, i ≠ j → ∃ ks, PathFor nodes weights latencies m i j ks

theorem witnessed_start (hself : ∀ i < nodes, weights i i = 0) :
    Witnessed nodes weights latencies ⟨weights, latencies, fun _ _ => 0⟩ where
  self := hself
  path i _ j _ _ := by
    refine ⟨[], forall_mem_nil _, ?_, ?_, rfl⟩
    · exact pathSum_nil ..
    · exact pathSum_nil ..

theorem PathFor.detour {k : Nat} {ks ls : List Nat} (hk : k < nodes)
    (h : PathFor nodes weights latencies m i k ks) (h' : PathFor nodes weights latencies m k j ls) :
    PathFor nodes weights latencies
      ⟨set2 m.dist i j (m.dist i k + m.dist k j),
        set2 m.latencies i j (m.latencies i k + m.latencies k j),
        set2 m.interSwitches i j (m.interSwitches i k + m.interSwitches k j + 1)⟩ i j
      (ks ++ k :: ls) where
  nodes_lt := forall_mem_append.mpr
    ⟨h.nodes_lt, forall_mem_cons.mpr ⟨hk, h'.nodes_lt⟩⟩
  dist := by
    rw [pathSum_append, h.dist, h'.dist]
    exact (set2_same ..).symm
  latency := by
    rw [pathSum_append, h.latency, h'.latency]
    exact (set2_same ..).symm
  interSwitches := by
    have h1 := h.interSwitches
    have h2 := h'.interSwitches
    show _ = set2 m.interSwitches i j _ i j
    rw [set2_same, length_append, length_cons]
    push_cast
    omega

theorem Witnessed.entry {b : Bool} {ij : Nat × Nat} (hij : ij ∈ entries nodes)
    (h : Witnessed nodes weights latencies m) :
    Witnessed nodes weights latencies (relaxEntry nodes (m, b) ij).1 := by
  obtain ⟨i, j⟩ := ij
  obtain ⟨hi, hj⟩ := mem_entries.mp hij
  have hfound : Found m nodes i j _ := relax_found (h.self i hi) (h.self j hj)
  dsimp only [relaxEntry]
  rcases hfound with heq | ⟨k, hk, hlt, heq⟩
  · -- nothing shorter: all three matrices are as before
    rw [heq, if_neg (fun hne => hne rfl)]
    exact h
  · rw [heq, if_pos hlt.ne']
    have hne : i ≠ j := by
      rintro rfl
      rw [h.self i hi] at hlt
      exact absurd hlt (Nat.not_lt_zero _)
    refine ⟨fun a ha => ?_, fun a ha c hc hac => ?_⟩
    · show set2 m.dist i j _ a a = 0
      rw [set2_of_ne fun he => hne (he.1.symm.trans he.2)]
      exact h.self a ha
    · by_cases heq : a = i ∧ c = j
      · obtain ⟨rfl, rfl⟩ := heq
        have hka : a ≠ k := by
          rintro rfl
          rw [h.self a ha] at hlt
          omega
        have hkc : k ≠ c := by
          rintro rfl
          rw [h.self k hk] at hlt
          omega
        obtain ⟨ks, hks⟩ := h.path a ha k hk hka
        obtain ⟨ls, hls⟩ := h.path k hk c hc hkc
        exact ⟨_, hks.detour hk hls⟩
      · obtain ⟨ks, hks⟩ := h.path a ha c hc hac
        refine ⟨ks, hks.nodes_lt, hks.dist.trans ?_, hks.latency.trans ?_,
          hks.interSwitches.trans ?_⟩
        all_goals exact (set2_of_ne heq).symm

theorem Witnessed.pass (h : Witnessed nodes weights latencies m) :
    Witnessed nodes weights latencies (Topology.pass nodes m).1 := by
  suffices hloop : ∀ l ⊆ entries nodes, ∀ s : PathMatrices × Bool,
      Witnessed nodes weights latencies s.1 →
      Witnessed nodes weights latencies (l.foldl (relaxEntry nodes) s).1 from
    hloop _ (List.Subset.refl _) (m, false) h
  intro l
  induction l with
  | nil => exact fun _ s hs => hs
  | cons ij l ih =>
    intro hl s hs
    rw [foldl_cons]
    exact ih (fun _ h => hl (mem_cons_of_mem _ h)) _ (hs.entry (hl (mem_cons_self ..)))

theorem Witnessed.ends {m' : PathMatrices} (h : Witnessed nodes weights latencies m)
    (hends : Ends nodes m m') : Witnessed nodes weights latencies m' := by
  induction hends with
  | stop hstop =>
    have hpass := h.pass
    rwa [hstop] at hpass
  | again hagain _ ih =>
    have hpass := h.pass
    rw [hagain] at hpass
    exact ih hpass

theorem dist_le_pathSum (hi : i < nodes) (hj : j < nodes) {ks : List Nat}
    (hks : ∀ k ∈ ks, k < nodes) :
    (shortestPath nodes weights latencies).dist i j ≤ pathSum weights i ks j := by
  induction ks generalizing i with
  | nil =>
    rw [pathSum_nil]
    exact shortestPath_le nodes weights latencies i j
  | cons k ks ih =>
    obtain ⟨hk, hks⟩ := forall_mem_cons.mp hks
    rw [pathSum_cons]
    calc (shortestPath nodes weights latencies).dist i j
        ≤ (shortestPath nodes weights latencies).dist i k +
          (shortestPath nodes weights latencies).dist k j :=
          shortestPath_triangle nodes weights latencies hi hj hk
      _ ≤ weights i k + pathSum weights k ks j :=
          Nat.add_le_add (shortestPath_le nodes weights latencies i k) (ih hk hks)

/-- **All-pairs shortest paths.** The loop ends with the least weight of a path, and a path of
existing links has this weight, `latencies` and `inter_switches`. -/
theorem shortestPath_correct (nodes : Nat) (weights : Nat → Nat → Nat) (latencies : Nat → Nat → Int)
    (hself : ∀ i < nodes, weights i i = 0) :
    Ends nodes ⟨weights, latencies, fun _ _ => 0⟩ (shortestPath nodes weights latencies) ∧
    (∀ i < nodes, ∀ j < nodes, IsLeast
      {x | ∃ ks : List Nat, (∀ k ∈ ks, k < nodes) ∧ pathSum weights i ks j = x}
      ((shortestPath nodes weights latencies).dist i j)) ∧
    ∀ i < nodes, ∀ j < nodes, i ≠ j →
      (shortestPath nodes weights latencies).dist i j < infiniteLatency →
      ∃ ks : List Nat, (∀ k ∈ ks, k < nodes) ∧
        (∀ l ∈ pathLinks i ks j, weights l.1 l.2 < infiniteLatency) ∧
        pathSum weights i ks j = (shortestPath nodes weights latencies).dist i j ∧
        pathSum latencies i ks j = (shortestPath nodes weights latencies).latencies i j ∧
        (ks.length : Int) = (shortestPath nodes weights latencies).interSwitches i j := by
  have hends := extendShortestPath_ends nodes _ ⟨weights, latencies, fun _ _ => 0⟩
    (Nat.lt_succ_self _)
  have hwit : Witnessed nodes weights latencies (shortestPath nodes weights latencies) :=
    (witnessed_start hself).ends hends
  refine ⟨hends, fun i hi j hj => ⟨?_, ?_⟩, fun i hi j hj hne hlt => ?_⟩
  · rcases eq_or_ne i j with rfl | hne
    · refine ⟨[], forall_mem_nil _, ?_⟩
      rw [pathSum_nil, hself i hi, hwit.self i hi]
    · obtain ⟨ks, hks⟩ := hwit.path i hi j hj hne
      exact ⟨ks, hks.nodes_lt, hks.dist⟩
  · rintro x ⟨ks, hks, rfl⟩
    exact dist_le_pathSum hi hj hks
  · obtain ⟨ks, hks⟩ := hwit.path i hi j hj hne
    refine ⟨ks, hks.nodes_lt, fun l hl => ?_, hks.dist, hks.latency, hks.interSwitches⟩
    calc weights l.1 l.2 ≤ pathSum weights i ks j := le_pathSum hl
      _ = (shortestPath nodes weights latencies).dist i j := hks.dist
      _ < infiniteLatency := hlt

def rowWeights (i j : Nat) : Nat :=
  if i = j then 0 else if (i, j) = (0, 1) then 1 else if (i, j) = (1, 2) then 2 else infiniteLatency

theorem shortestPath_correct_row : ∃ ks : List Nat,
    pathSum rowWeights 0 ks 2 = 3 ∧ ks.length = 1 := by
  have hdist : (shortestPath 3 rowWeights fun i j => rowWeights i j).dist 0 2 = 3 ∧
      (shortestPath 3 rowWeights fun i j => rowWeights i j).interSwitches 0 2 = 1 := by
    decide +kernel
  obtain ⟨ks, -, -, hw, -, hlen⟩ := (shortestPath_correct 3 rowWeights (fun i j => rowWeights i j)
    fun i _ => if_pos rfl).2.2 0 (by decide) 2 (by decide) (by decide) (by rw [hdist.1]; decide)
  refine ⟨ks, hw.trans hdist.1, ?_⟩
  rw [hdist.2] at hlen
  exact Int.ofNat_inj.mp hlen

end NocSwap.Topology
